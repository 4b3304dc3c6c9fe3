import ServiceLib.HashMap
import ServiceLib.Transition

/-!
# The result router

Follows `ResultRouter` in `src/runtime/datasource.rs`. `begin` registers a channel under a message
id, in one of a number of shards; `consume` looks the channel of its payload up and sends to it;
`done` removes the id. The statements under a shard's lock are single steps, and the calls take
their steps in any order.

Beside the shards the state keeps what they are meant to hold: which `begin` has registered an id,
where a `begin` that is refused registers nothing. Each `consume` records what was registered when
it looked, and the calls of `consume` that had returned when it was called.

**Theorem (`router_routes`).** As long as no id is registered twice, every payload is put once into
the channel of the `begin` that had registered its id, in the order of consumption, and into no
other; a payload without a registration is put nowhere.

The idea: the shards then are the registrations, and each channel is the sequence of all completed
calls of `consume`, filtered by what they found.
-/

namespace ServiceLib

namespace ResultRouter

/-! ## The state -/

inductive BeginPc where
  /-- Has made the channel. -/
  | created
  /-- Has inserted the sender, and replaced another one or none. -/
  | inserted (replaced : Option ℕ)
  | returned
  | panicked
deriving DecidableEq

/-- A call of `begin`, with the channel that it has made: whether the receiver is alive, the calls
of `consume` whose payloads it has got, and how many of them it has taken. -/
structure Begin where
  id : String
  pc : BeginPc
  alive : Bool
  sent : List ℕ
  taken : ℕ
deriving DecidableEq

inductive ConsumePc where
  | called
  /-- Has looked for a sender. -/
  | found (sender : Option ℕ)
  | returned
deriving DecidableEq

/-- A call of `consume`, with the registration of its id when it looked, and whether its receiver
was alive when it sent. -/
structure Consume (T : Type) where
  payload : T
  pc : ConsumePc
  before : List ℕ
  expected : Option ℕ
  expectedAlive : Bool

structure State (T : Type) where
  shards : ℕ → HashMap String ℕ
  begins : List Begin
  consumes : List (Consume T)
  /-- Which `begin` has registered an id. -/
  registered : String → Option ℕ
  /-- The calls of `consume` that have returned, in order. -/
  consumed : List ℕ

/-! ## Steps -/

inductive Action (T : Type) where
  | begin (id : String)
  | insert (j : ℕ)
  | assert (j : ℕ)
  | done (id : String)
  | consume (payload : T)
  | lookup (k : ℕ)
  | send (k : ℕ)
  /-- A receiver takes a payload. -/
  | recv (j : ℕ)
  | dropReceiver (j : ℕ)

/-- `PENDING_REQUEST_SHARDS` -/
def pendingRequestShards : ℕ := 64

variable {T : Type} (messageId : T → String) (hash : String → ℕ)

def shard (id : String) : ℕ := hash id % pendingRequestShards

namespace State

/-- The sender that the shard of an id has for it. -/
def lookup (s : State T) (id : String) : Option ℕ := (s.shards (shard hash id)).lookup id

def insert (s : State T) (id : String) (j : ℕ) : State T :=
  let shard := shard hash id
  { s with shards := Function.update s.shards shard ((s.shards shard).insert id j) }

def remove (s : State T) (id : String) : State T :=
  let shard := shard hash id
  { s with shards := Function.update s.shards shard ((s.shards shard).erase id) }

def alive (s : State T) (j : ℕ) : Bool := (s.begins[j]?).any Begin.alive

def setBegin (s : State T) (j : ℕ) (b : Begin) : State T := { s with begins := s.begins.set j b }

def setConsume (s : State T) (k : ℕ) (c : Consume T) : State T :=
  { s with consumes := s.consumes.set k c }

/-- The registration of `begin`: an id that is registered stays with the earlier one. -/
def register (s : State T) (id : String) (j : ℕ) : State T :=
  if s.registered id = none then
    { s with registered := Function.update s.registered id (some j) }
  else s

/-- `UnboundedSender::send` -/
def deliver (s : State T) (sender : Option ℕ) (k : ℕ) : State T :=
  match sender with
  | none => s
  | some j =>
    match s.begins[j]? with
    | none => s
    | some b => if b.alive then s.setBegin j { b with sent := b.sent ++ [k] } else s

end State

def step (s : State T) : Action T → Option (State T)
  | .begin id => some { s with begins := s.begins ++ [⟨id, .created, true, [], 0⟩] }
  | .insert j =>
    s.begins[j]?.bind fun b =>
      if b.pc = .created then
        some (((s.setBegin j { b with pc := .inserted (s.lookup hash b.id) }).insert hash b.id
          j).register b.id j)
      else none
  | .assert j =>
    s.begins[j]?.bind fun b =>
      match b.pc with
      | .inserted none => some (s.setBegin j { b with pc := .returned })
      | .inserted (some _) => some (s.setBegin j { b with pc := .panicked, alive := false })
      | _ => none
  | .done id =>
    some { s.remove hash id with registered := Function.update s.registered id none }
  | .consume payload =>
    some { s with consumes := s.consumes ++ [⟨payload, .called, s.consumed, none, false⟩] }
  | .lookup k =>
    s.consumes[k]?.bind fun c =>
      if c.pc = .called then
        some (s.setConsume k
          { c with
            pc := .found (s.lookup hash (messageId c.payload))
            expected := s.registered (messageId c.payload) })
      else none
  | .send k =>
    s.consumes[k]?.bind fun c =>
      match c.pc with
      | .found sender =>
        some { (s.deliver sender k).setConsume k
            { c with pc := .returned, expectedAlive := c.expected.any s.alive } with
          consumed := s.consumed ++ [k] }
      | _ => none
  | .recv j =>
    s.begins[j]?.bind fun b =>
      if b.pc = .returned ∧ b.alive = true ∧ b.taken < b.sent.length then
        some (s.setBegin j { b with taken := b.taken + 1 })
      else none
  | .dropReceiver j =>
    s.begins[j]?.bind fun b =>
      if b.pc = .returned ∧ b.alive = true then some (s.setBegin j { b with alive := false })
      else none

/-- `ResultRouter::new` -/
def init : State T := ⟨fun _ => ∅, [], [], fun _ => none, []⟩

def system : System (State T) (Action T) := ⟨init, step messageId hash⟩

/-! ## The claim -/

/-- Payloads are routed by identity. -/
structure Routes (s : State T) : Prop where
  /-- A payload whose id was registered is delivered exactly once to the receiver of that
  registration, if it is alive. -/
  delivered : ∀ (k : ℕ) (c : Consume T) (j : ℕ) (b : Begin), s.consumes[k]? = some c →
    c.pc = .returned → c.expected = some j → c.expectedAlive = true → s.begins[j]? = some b →
    b.sent.count k = 1
  /-- Nothing else is delivered to a receiver. -/
  others : ∀ (k j : ℕ) (b : Begin), s.begins[j]? = some b → k ∈ b.sent →
    ∃ c, s.consumes[k]? = some c ∧ c.expected = some j
  /-- A receiver gets the payloads in the order of consumption. -/
  order : ∀ (j : ℕ) (b : Begin), s.begins[j]? = some b → b.sent.Sublist s.consumed
  /-- A call of `consume` that had returned when another one was called comes before it. -/
  realTime : ∀ (k l : ℕ) (c : Consume T), s.consumes[k]? = some c → k ∈ s.consumed →
    l ∈ c.before → [l, k].Sublist s.consumed
  /-- What is registered can be found, also after a refused `begin`. -/
  registration : ∀ id, s.lookup hash id = s.registered id

/-! ## Lookup -/

section Lookup

variable (s : State T) (id other : String) (j : ℕ)

theorem lookup_insert :
    (s.insert hash id j).lookup hash other =
      if other = id then some j else s.lookup hash other := by
  simp only [State.lookup, State.insert]
  by_cases hother : other = id
  · subst hother
    rw [Function.update_self, Finmap.lookup_insert, if_pos rfl]
  · rw [if_neg hother]
    by_cases hshard : shard hash other = shard hash id
    · rw [hshard, Function.update_self, Finmap.lookup_insert_of_ne _ hother]
    · rw [Function.update_of_ne hshard]

theorem lookup_remove :
    (s.remove hash id).lookup hash other = if other = id then none else s.lookup hash other := by
  simp only [State.lookup, State.remove]
  by_cases hother : other = id
  · subst hother
    rw [Function.update_self, Finmap.lookup_erase, if_pos rfl]
  · rw [if_neg hother]
    by_cases hshard : shard hash other = shard hash id
    · rw [hshard, Function.update_self, Finmap.lookup_erase_ne hother]
    · rw [Function.update_of_ne hshard]

end Lookup

/-! ## The invariant -/

/-- The payload of a call of `consume` is for the receiver of a `begin`. -/
def State.destined (s : State T) (j k : ℕ) : Bool :=
  (s.consumes[k]?).any fun c => c.expected == some j && c.expectedAlive

theorem destined_iff {s : State T} {j k : ℕ} :
    s.destined j k = true ↔
      ∃ c, s.consumes[k]? = some c ∧ c.expected = some j ∧ c.expectedAlive = true := by
  simp [State.destined, Option.any_eq_true]

structure ConsumeOk (s : State T) (k : ℕ) (c : Consume T) : Prop where
  found : ∀ sender, c.pc = .found sender → sender = c.expected
  returned : c.pc = .returned ↔ k ∈ s.consumed
  expected : ∀ j, c.expected = some j → j < s.begins.length
  before : c.before <+: s.consumed
  notBefore : k ∉ c.before

structure Inv (s : State T) : Prop where
  registration : ∀ id, s.lookup hash id = s.registered id
  known : ∀ id j, s.registered id = some j → j < s.begins.length
  consumes : ∀ k c, s.consumes[k]? = some c → ConsumeOk s k c
  consumed : ∀ k ∈ s.consumed, k < s.consumes.length
  nodup : s.consumed.Nodup
  sent : ∀ (j : ℕ) (b : Begin), s.begins[j]? = some b →
    b.sent = s.consumed.filter (s.destined j)

variable {hash}

/-- A `begin` moves on, and its channel stays as it is. -/
theorem Inv.setBegin {s : State T} (h : Inv hash s) {j : ℕ} {b b' : Begin}
    (hb : s.begins[j]? = some b) (hsent : b'.sent = b.sent) : Inv hash (s.setBegin j b') where
  registration := h.registration
  known id i hi := by
    show i < (s.begins.set j b').length
    rw [List.length_set]
    exact h.known id i hi
  consumes k c hc := by
    have hok := h.consumes k c hc
    refine ⟨hok.found, hok.returned, ?_, hok.before, hok.notBefore⟩
    intro i hi
    show i < (s.begins.set j b').length
    rw [List.length_set]
    exact hok.expected i hi
  consumed := h.consumed
  nodup := h.nodup
  sent i d hd := by
    have hlt : j < s.begins.length := (List.getElem?_eq_some_iff.mp hb).1
    have hd : (s.begins.set j b')[i]? = some d := hd
    by_cases hji : j = i
    · subst hji
      rw [List.getElem?_set_self hlt] at hd
      cases hd
      exact hsent.trans (h.sent j b hb)
    · rw [List.getElem?_set_ne hji] at hd
      exact h.sent i d hd

/-- An id that is free is registered. -/
theorem Inv.insert {s : State T} (h : Inv hash s) {id : String} {j : ℕ}
    (hj : j < s.begins.length) (hfree : s.registered id = none) :
    Inv hash ((s.insert hash id j).register id j) := by
  have hstate : (s.insert hash id j).register id j =
      { s.insert hash id j with registered := Function.update s.registered id (some j) } := by
    rw [State.register]
    exact if_pos hfree
  rw [hstate]
  refine ⟨?_, ?_, ?_, h.consumed, h.nodup, h.sent⟩
  · intro other
    show (s.insert hash id j).lookup hash other = Function.update s.registered id (some j) other
    rw [lookup_insert]
    by_cases hother : other = id
    · rw [if_pos hother, hother, Function.update_self]
    · rw [if_neg hother, Function.update_of_ne hother]
      exact h.registration other
  · intro other i hi
    have hi : Function.update s.registered id (some j) other = some i := hi
    by_cases hother : other = id
    · rw [hother, Function.update_self] at hi
      exact Option.some.inj hi ▸ hj
    · rw [Function.update_of_ne hother] at hi
      exact h.known other i hi
  · intro k c hc
    have hok := h.consumes k c hc
    exact ⟨hok.found, hok.returned, hok.expected, hok.before, hok.notBefore⟩

theorem Inv.remove {s : State T} (h : Inv hash s) (id : String) :
    Inv hash { s.remove hash id with registered := Function.update s.registered id none } := by
  refine ⟨?_, ?_, ?_, h.consumed, h.nodup, h.sent⟩
  · intro other
    show (s.remove hash id).lookup hash other = Function.update s.registered id none other
    rw [lookup_remove]
    by_cases hother : other = id
    · rw [if_pos hother, hother, Function.update_self]
    · rw [if_neg hother, Function.update_of_ne hother]
      exact h.registration other
  · intro other i hi
    have hi : Function.update s.registered id none other = some i := hi
    by_cases hother : other = id
    · rw [hother, Function.update_self] at hi
      cases hi
    · rw [Function.update_of_ne hother] at hi
      exact h.known other i hi
  · intro k c hc
    have hok := h.consumes k c hc
    exact ⟨hok.found, hok.returned, hok.expected, hok.before, hok.notBefore⟩

theorem Inv.addBegin {s : State T} (h : Inv hash s) (id : String) :
    Inv hash { s with begins := s.begins ++ [⟨id, .created, true, [], 0⟩] } := by
  refine ⟨h.registration, ?_, ?_, h.consumed, h.nodup, ?_⟩
  · intro other i hi
    rw [List.length_append]
    exact Nat.lt_add_right _ (h.known other i hi)
  · intro k c hc
    have hok := h.consumes k c hc
    refine ⟨hok.found, hok.returned, ?_, hok.before, hok.notBefore⟩
    intro i hi
    rw [List.length_append]
    exact Nat.lt_add_right _ (hok.expected i hi)
  · intro j b hb
    rw [List.getElem?_append] at hb
    split at hb
    case isTrue => exact h.sent j b hb
    case isFalse hge =>
      rw [List.getElem?_singleton] at hb
      obtain ⟨hj, hb⟩ := Option.ite_none_right_eq_some.mp hb
      cases hb
      -- No call of `consume` has met this channel.
      refine (List.filter_eq_nil_iff.mpr fun k hk hdestined => ?_).symm
      obtain ⟨c, hc, hexpected, _⟩ := destined_iff.mp hdestined
      exact hge ((h.consumes k c hc).expected j hexpected)

theorem destined_append {s : State T} {c : Consume T} {j k : ℕ} (hk : k < s.consumes.length) :
    State.destined { s with consumes := s.consumes ++ [c] } j k = s.destined j k := by
  rw [State.destined, State.destined, List.getElem?_append_left hk]

theorem Inv.addConsume {s : State T} (h : Inv hash s) (payload : T) :
    Inv hash { s with
      consumes := s.consumes ++ [⟨payload, .called, s.consumed, none, false⟩] } := by
  refine ⟨h.registration, h.known, ?_, ?_, h.nodup, ?_⟩
  · intro k c hc
    rw [List.getElem?_append] at hc
    split at hc
    case isTrue =>
      have hok := h.consumes k c hc
      exact ⟨hok.found, hok.returned, hok.expected, hok.before, hok.notBefore⟩
    case isFalse hge =>
      rw [List.getElem?_singleton] at hc
      obtain ⟨hk, hc⟩ := Option.ite_none_right_eq_some.mp hc
      cases hc
      have hnew : k ∉ s.consumed := fun hmem => hge (h.consumed k hmem)
      exact ⟨by simp, iff_of_false (by simp) hnew, by simp, List.prefix_rfl, hnew⟩
  · intro k hk
    rw [List.length_append]
    exact Nat.lt_add_right _ (h.consumed k hk)
  · intro j b hb
    rw [h.sent j b hb]
    exact List.filter_congr fun k hk => (destined_append (h.consumed k hk)).symm

theorem destined_setConsume {s : State T} {c : Consume T} {j k l : ℕ} (hkl : k ≠ l) :
    (s.setConsume k c).destined j l = s.destined j l := by
  simp only [State.destined, State.setConsume, List.getElem?_set_ne hkl]

/-- A call of `consume` looks for its sender. -/
theorem Inv.lookup {s : State T} (h : Inv hash s) {k : ℕ} {c : Consume T}
    (hc : s.consumes[k]? = some c) (hpc : c.pc = .called) (id : String) :
    Inv hash (s.setConsume k
      { c with pc := .found (s.lookup hash id), expected := s.registered id }) := by
  have hlt : k < s.consumes.length := (List.getElem?_eq_some_iff.mp hc).1
  have hok := h.consumes k c hc
  have hopen : k ∉ s.consumed := mt hok.returned.mpr (by simp [hpc])
  refine ⟨h.registration, h.known, ?_, ?_, h.nodup, ?_⟩
  · intro l d hd
    have hd : (s.consumes.set k _)[l]? = some d := hd
    by_cases hkl : k = l
    · subst hkl
      rw [List.getElem?_set_self hlt] at hd
      cases hd
      refine ⟨?_, iff_of_false (by simp) hopen, ?_, hok.before, hok.notBefore⟩
      · intro sender hsender
        exact (ConsumePc.found.inj hsender).symm.trans (h.registration id)
      · exact h.known id
    · rw [List.getElem?_set_ne hkl] at hd
      have hok' := h.consumes l d hd
      exact ⟨hok'.found, hok'.returned, hok'.expected, hok'.before, hok'.notBefore⟩
  · intro l hl
    show l < (s.consumes.set k _).length
    rw [List.length_set]
    exact h.consumed l hl
  · intro j b hb
    rw [h.sent j b hb]
    refine List.filter_congr fun l hl => (destined_setConsume ?_).symm
    rintro rfl
    exact hopen hl

/-! ## Sending -/

/-- What a send does to a channel. -/
theorem deliver_begins {s : State T} {sender : Option ℕ} {j k : ℕ} {b' : Begin}
    (h : (s.deliver sender k).begins[j]? = some b') :
    ∃ b, s.begins[j]? = some b ∧
      b'.sent = b.sent ++ if sender = some j ∧ s.alive j = true then [k] else [] := by
  cases sender with
  | none => exact ⟨b', h, by simp⟩
  | some i =>
    simp only [State.deliver] at h
    cases hi : s.begins[i]? with
    | none =>
      rw [hi] at h
      have hij : i ≠ j := by
        rintro rfl
        rw [hi] at h
        cases h
      exact ⟨b', h, by simp [hij]⟩
    | some b =>
      have hlt : i < s.begins.length := (List.getElem?_eq_some_iff.mp hi).1
      have halive : s.alive i = b.alive := by simp [State.alive, hi]
      simp only [hi] at h
      by_cases hij : i = j
      · subst hij
        split at h
        case isTrue hb =>
          rw [State.setBegin, List.getElem?_set_self hlt] at h
          cases h
          exact ⟨b, hi, by simp [halive, hb]⟩
        case isFalse hb =>
          obtain rfl := Option.some.inj (hi.symm.trans h)
          exact ⟨b, hi, by simp [halive, hb]⟩
      · split at h
        case isTrue =>
          rw [State.setBegin, List.getElem?_set_ne hij] at h
          exact ⟨b', h, by simp [hij]⟩
        case isFalse => exact ⟨b', h, by simp [hij]⟩

/-- The rest of the state is not touched. -/
theorem deliver_rest (s : State T) (sender : Option ℕ) (k : ℕ) :
    (s.deliver sender k).begins.length = s.begins.length ∧
    (s.deliver sender k).shards = s.shards ∧ (s.deliver sender k).registered = s.registered ∧
    (s.deliver sender k).consumes = s.consumes := by
  cases sender with
  | none => exact ⟨rfl, rfl, rfl, rfl⟩
  | some j =>
    simp only [State.deliver]
    cases s.begins[j]? with
    | none => simp only [and_self]
    | some b =>
      simp only
      split
      · exact ⟨List.length_set, rfl, rfl, rfl⟩
      · exact ⟨rfl, rfl, rfl, rfl⟩

/-- A call of `consume` sends its payload to the receiver that it has found. -/
theorem Inv.send {s : State T} (h : Inv hash s) {k : ℕ} {c : Consume T} {sender : Option ℕ}
    (hc : s.consumes[k]? = some c) (hpc : c.pc = .found sender) :
    Inv hash { (s.deliver sender k).setConsume k
        { c with pc := .returned, expectedAlive := c.expected.any s.alive } with
      consumed := s.consumed ++ [k] } := by
  have hlt : k < s.consumes.length := (List.getElem?_eq_some_iff.mp hc).1
  have hok := h.consumes k c hc
  have hopen : k ∉ s.consumed := mt hok.returned.mpr (by simp [hpc])
  have hsender := hok.found sender hpc
  obtain ⟨hlength, hshards, hregistered, hconsumes⟩ := deliver_rest s sender k
  refine ⟨?_, ?_, ?_, ?_, ?_, ?_⟩
  · intro id
    show ((s.deliver sender k).shards (shard hash id)).lookup id =
      (s.deliver sender k).registered id
    rw [hshards, hregistered]
    exact h.registration id
  · intro id j hj
    show j < (s.deliver sender k).begins.length
    rw [hlength]
    exact h.known id j (hregistered ▸ hj)
  · intro l d hd
    have hd : ((s.deliver sender k).consumes.set k _)[l]? = some d := hd
    rw [hconsumes] at hd
    by_cases hkl : k = l
    · subst hkl
      rw [List.getElem?_set_self hlt] at hd
      cases hd
      refine ⟨by simp, iff_of_true rfl (by simp), ?_, ?_, hok.notBefore⟩
      · intro j hj
        show j < (s.deliver sender k).begins.length
        rw [hlength]
        exact hok.expected j hj
      · exact hok.before.trans (List.prefix_append _ _)
    · rw [List.getElem?_set_ne hkl] at hd
      have hok' := h.consumes l d hd
      refine ⟨hok'.found, ?_, ?_, ?_, hok'.notBefore⟩
      · rw [hok'.returned, List.mem_append, List.mem_singleton]
        exact ⟨.inl, fun hmem => hmem.resolve_right (Ne.symm hkl)⟩
      · intro j hj
        show j < (s.deliver sender k).begins.length
        rw [hlength]
        exact hok'.expected j hj
      · exact hok'.before.trans (List.prefix_append _ _)
  · intro l hl
    show l < ((s.deliver sender k).consumes.set k _).length
    rw [hconsumes, List.length_set]
    obtain hl | hl := List.mem_append.mp hl
    · exact h.consumed l hl
    · exact List.mem_singleton.mp hl ▸ hlt
  · exact List.nodup_append.mpr ⟨h.nodup, List.nodup_singleton k, fun a ha b hb hab =>
      hopen (List.mem_singleton.mp hb ▸ hab ▸ ha)⟩
  · intro j b' hb'
    obtain ⟨b, hb, hsent⟩ := deliver_begins (s := s) hb'
    rw [hsent, h.sent j b hb, List.filter_append]
    congr 1
    · refine List.filter_congr fun l hl => ?_
      have hkl : k ≠ l := by
        rintro rfl
        exact hopen hl
      rw [State.destined, State.destined]
      show _ = Option.any _ ((s.deliver sender k).consumes.set k _)[l]?
      rw [hconsumes, List.getElem?_set_ne hkl]
    · have hdestined : State.destined { (s.deliver sender k).setConsume k
            { c with pc := .returned, expectedAlive := c.expected.any s.alive } with
          consumed := s.consumed ++ [k] } j k = true ↔ sender = some j ∧ s.alive j = true := by
        rw [destined_iff]
        show (∃ d, ((s.deliver sender k).consumes.set k _)[k]? = some d ∧ _) ↔ _
        rw [hconsumes, List.getElem?_set_self hlt, hsender]
        constructor
        · intro ⟨d, hd, hexpected, halive⟩
          cases hd
          have hexpected : c.expected = some j := hexpected
          have halive : c.expected.any s.alive = true := halive
          rw [hexpected] at halive
          exact ⟨hexpected, halive⟩
        · intro ⟨hexpected, halive⟩
          exact ⟨_, rfl, hexpected, by rw [hexpected]; exact halive⟩
      rw [List.filter_singleton, Bool.cond_eq_ite]
      exact if_congr hdestined.symm rfl rfl

/-! ## Runs -/

/-- No `begin` inserts an id that is registered. -/
def isFresh (s : State T) : Action T → Bool
  | .insert j => (s.begins[j]?).all fun b => (s.registered b.id).isNone
  | _ => true

variable {messageId}

theorem inv_step {s t : State T} {a : Action T} (h : Inv hash s) (hfresh : isFresh s a = true)
    (hs : step messageId hash s a = some t) : Inv hash t := by
  cases a with
  | begin id =>
    cases hs
    exact h.addBegin id
  | insert j =>
    obtain ⟨b, hb, hs⟩ := Option.bind_eq_some_iff.mp hs
    obtain ⟨_, hs⟩ := Option.ite_none_right_eq_some.mp hs
    cases hs
    have hlt : j < s.begins.length := (List.getElem?_eq_some_iff.mp hb).1
    have hfree : s.registered b.id = none := by
      simp only [isFresh, hb, Option.all_some] at hfresh
      exact Option.isNone_iff_eq_none.mp hfresh
    refine (h.setBegin hb ?_).insert ?_ hfree
    · rfl
    · show j < (s.begins.set j _).length
      rw [List.length_set]
      exact hlt
  | assert j =>
    obtain ⟨b, hb, hs⟩ := Option.bind_eq_some_iff.mp hs
    split at hs
    · cases hs
      exact h.setBegin hb rfl
    · cases hs
      exact h.setBegin hb rfl
    · cases hs
  | done id =>
    cases hs
    exact h.remove id
  | consume payload =>
    cases hs
    exact h.addConsume payload
  | lookup k =>
    obtain ⟨c, hc, hs⟩ := Option.bind_eq_some_iff.mp hs
    obtain ⟨hpc, hs⟩ := Option.ite_none_right_eq_some.mp hs
    cases hs
    exact h.lookup hc hpc _
  | send k =>
    obtain ⟨c, hc, hs⟩ := Option.bind_eq_some_iff.mp hs
    split at hs
    case h_1 sender hpc =>
      cases hs
      exact h.send hc hpc
    case h_2 => cases hs
  | recv j =>
    obtain ⟨b, hb, hs⟩ := Option.bind_eq_some_iff.mp hs
    obtain ⟨_, hs⟩ := Option.ite_none_right_eq_some.mp hs
    cases hs
    exact h.setBegin hb rfl
  | dropReceiver j =>
    obtain ⟨b, hb, hs⟩ := Option.bind_eq_some_iff.mp hs
    obtain ⟨_, hs⟩ := Option.ite_none_right_eq_some.mp hs
    cases hs
    exact h.setBegin hb rfl

theorem inv_init : Inv hash (init : State T) where
  registration := by simp [init, State.lookup]
  known := by simp [init]
  consumes := by simp [init]
  consumed := by simp [init]
  nodup := by simp [init]
  sent := by simp [init]

theorem inv_reach {s : State T}
    (h : (system messageId hash).Reach (fun s a => isFresh s a = true) s) : Inv hash s :=
  h.invariant inv_init fun _ _ _ hi hok hs => inv_step hi hok hs

/-- Each channel is the completed calls of `consume` that found it, in order. -/
theorem Inv.routes {s : State T} (h : Inv hash s) : Routes hash s where
  delivered k c j b hc hpc hexpected halive hb := by
    have hmem : k ∈ s.consumed := (h.consumes k c hc).returned.mp hpc
    rw [h.sent j b hb, List.count_filter (destined_iff.mpr ⟨c, hc, hexpected, halive⟩)]
    exact List.count_eq_one_of_mem h.nodup hmem
  others k j b hb hk := by
    rw [h.sent j b hb, List.mem_filter] at hk
    obtain ⟨c, hc, hexpected, _⟩ := destined_iff.mp hk.2
    exact ⟨c, hc, hexpected⟩
  order j b hb := by
    rw [h.sent j b hb]
    exact List.filter_sublist
  realTime k l c hc hk hl := by
    obtain ⟨rest, hrest⟩ := (h.consumes k c hc).before
    have hk' : k ∈ rest := by
      rw [← hrest] at hk
      exact (List.mem_append.mp hk).resolve_left (h.consumes k c hc).notBefore
    rw [← hrest]
    exact (List.singleton_sublist.mpr hl).append (List.singleton_sublist.mpr hk')
  registration := h.registration

/-- **The result router.** On every run on which no `begin` inserts an id that is registered,
payloads are routed by identity. -/
theorem router_routes {s : State T}
    (h : (system messageId hash).Reach (fun s a => isFresh s a = true) s) : Routes hash s :=
  (inv_reach h).routes

/-- An id is registered, and a payload is consumed. -/
def oneRequest : List (Action String) :=
  [.begin "a", .insert 0, .assert 0, .consume "a", .lookup 0, .send 0]

theorem router_routes_oneRequest :
    ∃ s, (system id String.length).Reach (fun s a => isFresh s a = true) s ∧
      s.begins.map (fun b => b.sent.count 0) = [1] := by
  have hrun : (((system id String.length).restrict fun s a => isFresh s a = true).run init
      oneRequest).map (fun s => decide
        ((s.consumes.map fun c => (c.pc, c.expected, c.expectedAlive)) =
          [(.returned, some 0, true)] ∧ s.begins.length = 1)) = some true := by
    decide +kernel
  obtain ⟨s, hs, hfacts⟩ := Option.map_eq_some_iff.mp hrun
  obtain ⟨hconsumes, hbegins⟩ := of_decide_eq_true hfacts
  have h := (System.Reachable.run .init hs).reach
  obtain ⟨c, hc, hfields⟩ := List.map_eq_singleton_iff.mp hconsumes
  obtain ⟨b, hb⟩ := List.length_eq_one_iff.mp hbegins
  simp only [Prod.mk.injEq] at hfields
  obtain ⟨hpc, hexpected, halive⟩ := hfields
  have hcount := (router_routes h).delivered 0 c 0 b (by rw [hc]; rfl) hpc hexpected halive
    (by rw [hb]; rfl)
  exact ⟨s, h, by rw [hb, List.map_singleton, hcount]⟩

/-- A second `begin` for an id that is registered. -/
def twice : List (Action String) :=
  [.begin "a", .insert 0, .assert 0, .begin "a", .insert 1, .assert 1, .consume "a", .lookup 0,
    .send 0]

/-- The second `begin` is refused, and takes the registration of the first one with it: a payload of
the first one goes to a receiver that is gone. -/
theorem refused_begin_takes_registration :
    ∃ s, (system id String.length).Reachable s ∧ ¬ Routes String.length s := by
  have hrun : ((system id String.length).run init twice).map (fun s => decide
        ((s.consumes.map fun c => (c.pc, c.expected, c.expectedAlive)) =
          [(.returned, some 0, true)] ∧
        (s.begins.map fun b => (b.pc, b.alive, b.sent)) =
          [(.returned, true, []), (.panicked, false, [])])) = some true := by
    decide +kernel
  obtain ⟨s, hs, hfacts⟩ := Option.map_eq_some_iff.mp hrun
  obtain ⟨hconsumes, hbegins⟩ := of_decide_eq_true hfacts
  refine ⟨s, System.Reachable.run .init hs, fun hroutes => ?_⟩
  obtain ⟨c, hc, hfields⟩ := List.map_eq_singleton_iff.mp hconsumes
  simp only [Prod.mk.injEq] at hfields
  obtain ⟨hpc, hexpected, halive⟩ := hfields
  obtain ⟨first, rest, hb, hfirst, -⟩ := List.map_eq_cons_iff.mp hbegins
  have hempty : first.sent = [] := congrArg (fun fields => fields.2.2) hfirst
  have hcount := hroutes.delivered 0 c 0 first (by rw [hc]; rfl) hpc hexpected halive
    (by rw [hb]; rfl)
  rw [hempty] at hcount
  cases hcount

end ResultRouter

end ServiceLib
