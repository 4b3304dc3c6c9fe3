import ServiceLib.BTreeMap
import ServiceLib.Linked

/-!
# The pending queue of a pool

Follows `PendingQueue` in `src/runtime/pool/queuedpool.rs`: tasks that wait for an executor, either
first in first out in a linked list indexed by task id, or ordered by priority and id in a tree
with an index. An `unwrap` that fails is `none`.

What a queue is for is said by the list of its items in the order in which they are popped
(`Waiting`): a new item goes to the end, or to the place its key gives it; a promoted one goes to
the front, or gets the least priority. `Represents` ties the two together, and `push_represents`,
`pop_represents` and `promote_represents` show that no `unwrap` of a represented queue fails and that
the links and the index always tell the same story as the list.
-/

namespace ServiceLib

/-- The numeric order of `i32`. -/
instance instLinearOrderInt32 : LinearOrder Int32 where
  le_refl := Int32.le_refl
  le_trans _ _ _ := Int32.le_trans
  le_antisymm _ _ := Int32.le_antisymm
  le_total := Int32.le_total
  lt_iff_le_not_ge a b := by
    rw [Int32.lt_iff_toInt_lt, Int32.le_iff_toInt_le, Int32.le_iff_toInt_le]
    omega
  toDecidableLE := inferInstance
  toDecidableLT := inferInstance

theorem minValue_le (a : Int32) : Int32.minValue ≤ a := by
  rw [Int32.le_iff_toInt_le]
  exact a.minValue_le_toInt

/-- `Key`: priority first, then the order of arrival. -/
abbrev Key := Int32 ×ₗ ℕ

/-- `FifoEntry`. -/
abbrev FifoEntry (E : Type) := Linked.Node ℕ E

inductive PendingQueue (E : Type)
  | fifo (entries : HashMap ℕ (FifoEntry E)) (head tail : Option ℕ)
  | priority (entries : BTreeMap Key E) (positions : HashMap ℕ Key)

namespace PendingQueue

variable {E : Type}

def new (priority : Bool) : PendingQueue E :=
  if priority then .priority BTreeMap.new ∅ else .fifo ∅ none none

def len : PendingQueue E → ℕ
  | .fifo entries _ _ => entries.keys.card
  | .priority entries _ => entries.len

def isEmpty (q : PendingQueue E) : Bool := q.len == 0

def push : PendingQueue E → ℕ → Int32 → E → Option (PendingQueue E)
  | .priority entries positions, id, prio, entry =>
    let key : Key := toLex (prio, id)
    some (.priority (entries.insert key entry) (positions.insert id key))
  | .fifo entries head tail, id, _, entry =>
    match tail with
    | some previous => do
      let entries ← Linked.update entries previous fun n => { n with next := some id }
      some (.fifo (entries.insert id ⟨entry, tail, none⟩) head (some id))
    | none => some (.fifo (entries.insert id ⟨entry, tail, none⟩) (some id) (some id))

/-- `some none` is the `None` of an empty queue. -/
def pop : PendingQueue E → Option (Option ((ℕ × E) × PendingQueue E))
  | .priority entries positions =>
    match entries.popFirst with
    | none => some none
    | some ((key, entry), entries) =>
      let id := (ofLex key).2
      some (some ((id, entry), .priority entries (positions.erase id)))
  | .fifo entries head tail =>
    match head with
    | none => some none
    | some id => do
      let node ← entries.lookup id
      let entries := entries.erase id
      match node.next with
      | some next =>
        let entries ← Linked.update entries next fun n => { n with previous := none }
        some (some ((id, node.entry), .fifo entries node.next tail))
      | none => some (some ((id, node.entry), .fifo entries node.next none))

/-- The part of `promote` that takes a node out of the linked list. -/
def unlink (entries : HashMap ℕ (FifoEntry E)) (tail previous next : Option ℕ) :
    Option (HashMap ℕ (FifoEntry E) × Option ℕ) := do
  let entries ← Linked.update entries (← previous) fun n => { n with next := next }
  match next with
  | some next =>
    let entries ← Linked.update entries next fun n => { n with previous := previous }
    some (entries, tail)
  | none => some (entries, previous)

/-- The part of `promote` that puts the node before the first one. -/
def linkFirst (entries : HashMap ℕ (FifoEntry E)) (head : Option ℕ) (id : ℕ) :
    Option (HashMap ℕ (FifoEntry E)) := do
  let entries ← Linked.update entries (← head) fun n => { n with previous := some id }
  Linked.update entries id fun n => { n with previous := none, next := head }

def promote : PendingQueue E → ℕ → Option (Bool × PendingQueue E)
  | .priority entries positions, id =>
    match positions.lookup id with
    | none => some (false, .priority entries positions)
    | some key => do
      let entry ← entries.get key
      let key' : Key := toLex (Int32.minValue, (ofLex key).2)
      some (true, .priority ((entries.erase key).insert key' entry) (positions.insert id key'))
  | .fifo entries head tail, id =>
    if head = some id then some (false, .fifo entries head tail)
    else
      match entries.lookup id with
      | none => some (false, .fifo entries head tail)
      | some node => do
        let (entries, tail) ← unlink entries tail node.previous node.next
        let entries ← linkFirst entries head id
        some (true, .fifo entries (some id) tail)

/-- Some queued entry satisfies `f`. -/
def any (f : E → Bool) : PendingQueue E → Bool
  | .fifo entries _ _ => entries.any fun _ n => f n.entry
  | .priority entries _ => entries.entries.any fun e => f e.2

end PendingQueue

/-! ## What a queue is for -/

/-- A waiting task with its number and priority. -/
structure Item (E : Type) where
  id : ℕ
  priority : Int32
  entry : E

namespace Item

variable {E : Type}

def key (x : Item E) : Key := toLex (x.priority, x.id)

/-- The binding of an item in the linked list. -/
def link (x : Item E) : ℕ × E := (x.id, x.entry)

/-- The binding of an item in the tree. -/
def binding (x : Item E) : Key × E := (x.key, x.entry)

def keyLe (x y : Item E) : Prop := x.key ≤ y.key

instance : DecidableRel (keyLe : Item E → Item E → Prop) :=
  fun x y => inferInstanceAs (Decidable (x.key ≤ y.key))

end Item

namespace Waiting

variable {E : Type}

/-- `priority` tells the pool's discipline. -/
def push (priority : Bool) (l : List (Item E)) (x : Item E) : List (Item E) :=
  if priority then l.orderedInsert Item.keyLe x else l ++ [x]

def remove (l : List (Item E)) (id : ℕ) : List (Item E) := l.filter fun x => x.id ≠ id

def promote (priority : Bool) (l : List (Item E)) (id : ℕ) : List (Item E) :=
  match l.find? fun x => x.id = id with
  | none => l
  | some x =>
    if priority then
      (remove l id).orderedInsert Item.keyLe { x with priority := Int32.minValue }
    else x :: remove l id

/-- Whether `promote` finds something to do: the first task of a linked list stays where it is. -/
def promotes (priority : Bool) (l : List (Item E)) (id : ℕ) : Bool :=
  if priority then decide (id ∈ l.map Item.id)
  else decide (id ∈ l.map Item.id ∧ (l.map Item.id).head? ≠ some id)

theorem push_perm (priority : Bool) (l : List (Item E)) (x : Item E) :
    (push priority l x).Perm (x :: l) := by
  cases priority with
  | true => exact List.perm_orderedInsert _ x l
  | false => exact List.perm_append_singleton x l

/-- An item taken out of the middle. -/
theorem remove_split {l₁ l₂ : List (Item E)} {x : Item E}
    (hn : ((l₁ ++ x :: l₂).map Item.id).Nodup) : remove (l₁ ++ x :: l₂) x.id = l₁ ++ l₂ := by
  rw [List.map_append, List.map_cons, List.nodup_append, List.nodup_cons] at hn
  obtain ⟨-, ⟨hx₂, -⟩, hx₁⟩ := hn
  have h₁ : l₁.filter (fun y => y.id ≠ x.id) = l₁ := by
    rw [List.filter_eq_self]
    intro y hy
    simpa using hx₁ y.id (List.mem_map_of_mem hy) x.id (by simp)
  have h₂ : l₂.filter (fun y => y.id ≠ x.id) = l₂ := by
    rw [List.filter_eq_self]
    intro y hy
    have : y.id ≠ x.id := fun he => hx₂ (he ▸ List.mem_map_of_mem hy)
    simpa using this
  rw [remove, List.filter_append, h₁, List.filter_cons_of_neg (by simp), h₂]

/-- A promoted item is not waiting, or is moved from its place. -/
theorem promote_cases (priority : Bool) (l : List (Item E)) (hn : (l.map Item.id).Nodup) (id : ℕ) :
    (id ∉ l.map Item.id ∧ promote priority l id = l) ∨
      ∃ l₁ x l₂, l = l₁ ++ x :: l₂ ∧ x.id = id ∧ promote priority l id =
        if priority then
          (l₁ ++ l₂).orderedInsert Item.keyLe { x with priority := Int32.minValue }
        else x :: (l₁ ++ l₂) := by
  cases hf : l.find? (fun x => x.id = id) with
  | none =>
    refine Or.inl ⟨?_, by rw [promote, hf]⟩
    simpa using hf
  | some x =>
    refine Or.inr ?_
    obtain ⟨l₁, l₂, rfl⟩ := List.append_of_mem (List.mem_of_find?_eq_some hf)
    have hx : x.id = id := by simpa using List.find?_some hf
    refine ⟨l₁, x, l₂, rfl, hx, ?_⟩
    rw [promote, hf, ← hx, remove_split hn]

/-- Promotion loses and adds nothing. -/
theorem promote_perm (priority : Bool) (l : List (Item E)) (hn : (l.map Item.id).Nodup) (id : ℕ) :
    ((promote priority l id).map Item.link).Perm (l.map Item.link) := by
  rcases promote_cases priority l hn id with ⟨-, h⟩ | ⟨l₁, x, l₂, rfl, -, h⟩
  · rw [h]
  · have hmid : (x.link :: (l₁ ++ l₂).map Item.link).Perm ((l₁ ++ x :: l₂).map Item.link) :=
      List.perm_middle.symm.map Item.link
    rw [h]
    cases priority with
    | true => exact ((List.perm_orderedInsert _ _ _).map Item.link).trans hmid
    | false => exact hmid

end Waiting

/-! ## The queue represents the list -/

namespace PendingQueue

variable {E : Type}

open Linked Waiting

/-- The linked list holds the items in order, and nothing else. -/
structure FifoRepresents (entries : HashMap ℕ (FifoEntry E)) (head tail : Option ℕ)
    (l : List (Item E)) : Prop where
  segment : Segment entries none (l.map Item.link) none
  head : head = firstKey (l.map Item.link) none
  tail : tail = lastKey none (l.map Item.link)
  mem : ∀ id, id ∈ entries → id ∈ l.map Item.id
  nodup : (l.map Item.id).Nodup

/-- The tree holds the items in order, and the index knows the key of each. -/
structure PriorityRepresents (entries : BTreeMap Key E) (positions : HashMap ℕ Key)
    (l : List (Item E)) : Prop where
  entries : entries.entries = l.map Item.binding
  positions : ∀ id key, positions.lookup id = some key ↔ ∃ x ∈ l, x.id = id ∧ x.key = key
  nodup : (l.map Item.id).Nodup

def Represents : Bool → PendingQueue E → List (Item E) → Prop
  | false, .fifo entries head tail, l => FifoRepresents entries head tail l
  | true, .priority entries positions, l => PriorityRepresents entries positions l
  | _, _, _ => False

variable {p : Bool} {q : PendingQueue E} {l : List (Item E)}

theorem Represents.nodup (h : Represents p q l) : (l.map Item.id).Nodup := by
  cases p <;> cases q <;> first | exact h.elim | skip
  · exact FifoRepresents.nodup h
  · exact PriorityRepresents.nodup h

theorem map_fst_link (l : List (Item E)) : (l.map Item.link).map Prod.fst = l.map Item.id := by
  rw [List.map_map]
  rfl

theorem new_represents (p : Bool) : Represents p (new p : PendingQueue E) [] := by
  cases p with
  | false =>
    refine ⟨trivial, rfl, rfl, fun id hid => ?_, List.nodup_nil⟩
    exact absurd hid Finmap.notMem_empty
  | true =>
    refine ⟨rfl, fun id key => ?_, List.nodup_nil⟩
    simp

theorem Represents.len (h : Represents p q l) : q.len = l.length := by
  cases p <;> cases q <;> first | exact h.elim | skip
  case false.fifo entries head tail =>
    obtain ⟨hseg, -, -, hmem, hn⟩ := h
    have hkeys : entries.keys = (l.map Item.id).toFinset := by
      ext id
      rw [Finmap.mem_keys, List.mem_toFinset]
      refine ⟨hmem id, fun hid => hseg.mem ?_⟩
      rw [map_fst_link]
      exact hid
    rw [PendingQueue.len, hkeys, List.toFinset_card_of_nodup hn, List.length_map]
  case true.priority entries positions =>
    rw [PendingQueue.len, BTreeMap.len, h.entries, List.length_map]

theorem Represents.isEmpty (h : Represents p q l) : q.isEmpty = l.isEmpty := by
  rw [PendingQueue.isEmpty, h.len]
  cases l <;> rfl

theorem Represents.any (h : Represents p q l) (f : E → Bool) :
    q.any f = l.any fun x => f x.entry := by
  rw [Bool.eq_iff_iff, List.any_eq_true]
  cases p <;> cases q <;> first | exact h.elim | skip
  case false.fifo entries head tail =>
    rw [PendingQueue.any, finmap_any_eq_true]
    have hnode : ∀ x ∈ l, ∃ n, entries.lookup x.id = some n ∧ n.entry = x.entry := fun x hx =>
      h.segment.lookup (List.mem_map_of_mem hx)
    constructor
    · rintro ⟨id, n, hn, hf⟩
      obtain ⟨x, hx, rfl⟩ := List.mem_map.1 (h.mem id (Finmap.mem_of_lookup_eq_some hn))
      obtain ⟨n', hn', he⟩ := hnode x hx
      obtain rfl : n = n' := Option.some.inj (hn.symm.trans hn')
      exact ⟨x, hx, he ▸ hf⟩
    · rintro ⟨x, hx, hf⟩
      obtain ⟨n, hn, he⟩ := hnode x hx
      exact ⟨x.id, n, hn, by rw [he]; exact hf⟩
  case true.priority entries positions =>
    rw [PendingQueue.any, h.entries, List.any_map, List.any_eq_true]
    rfl

/-! ### Pushing -/

/-- Binding a list of items in key order or sorting the items first is the same. -/
theorem map_binding_orderedInsert (l : List (Item E)) (x : Item E) :
    (l.orderedInsert Item.keyLe x).map Item.binding =
      (l.map Item.binding).orderedInsert BTreeMap.keyLe x.binding := by
  induction l with
  | nil => rfl
  | cons y l ih =>
    have hle : BTreeMap.keyLe x.binding y.binding ↔ Item.keyLe x y := Iff.rfl
    simp only [List.orderedInsert_cons, List.map_cons, hle]
    split_ifs
    · rfl
    · rw [List.map_cons, ih]

theorem FifoRepresents.push {entries : HashMap ℕ (FifoEntry E)} {head tail : Option ℕ}
    (h : FifoRepresents entries head tail l) (x : Item E) (hx : x.id ∉ l.map Item.id) :
    ∃ q', (PendingQueue.fifo entries head tail).push x.id x.priority x.entry = some q' ∧
      Represents false q' (l ++ [x]) := by
  have hnodup : ((l ++ [x]).map Item.id).Nodup := by
    rw [List.map_append, List.nodup_append]
    exact ⟨h.nodup, List.nodup_singleton _, fun a ha b hb hab =>
      hx (List.mem_singleton.1 hb ▸ hab ▸ ha)⟩
  have hmem : ∀ (m : HashMap ℕ (FifoEntry E)) (n : FifoEntry E), (∀ k, k ∈ m ↔ k ∈ entries) →
      ∀ k, k ∈ m.insert x.id n → k ∈ (l ++ [x]).map Item.id := by
    intro m n hm k hk
    rw [List.map_append, List.mem_append]
    rcases Finmap.mem_insert.1 hk with rfl | hk
    · exact Or.inr (by simp)
    · exact Or.inl (h.mem k ((hm k).1 hk))
  cases l using List.reverseRecOn with
  | nil =>
    obtain rfl : tail = none := h.tail
    refine ⟨_, rfl, ⟨?_, trivial⟩, rfl, rfl, hmem entries _ fun _ => Iff.rfl, hnodup⟩
    rw [show (Item.link x).1 = x.id from rfl, Finmap.lookup_insert]
    rfl
  | append_singleton l y _ =>
    have htail : tail = some y.id := by
      rw [h.tail, List.map_append, lastKey_append]
      rfl
    have hseg := h.segment
    have hkeys := h.nodup
    rw [← map_fst_link, List.map_append] at hkeys
    rw [List.map_append] at hseg
    obtain ⟨m, hm, hsegm, hmemm, hout⟩ := hseg.setNext hkeys (some x.id)
    have hlink : ((l ++ [y]).map Item.link) = l.map Item.link ++ [y.link] := by
      rw [List.map_append]
      rfl
    refine ⟨.fifo (m.insert x.id ⟨x.entry, tail, none⟩) head (some x.id), ?_, ?_, ?_, ?_,
      hmem m _ hmemm, hnodup⟩
    · subst htail
      change (Linked.update entries (Item.link y).1 _).bind _ = _
      rw [hm]
      rfl
    · rw [List.map_append, segment_append, hlink]
      refine ⟨hsegm.insert_of_notMem _ ?_, ?_, trivial⟩
      · rw [← hlink, map_fst_link]
        exact hx
      · rw [show (Item.link x).1 = x.id from rfl, Finmap.lookup_insert, htail, lastKey_append]
        rfl
    · rw [h.head]
      cases l <;> rfl
    · rw [List.map_append, lastKey_append]
      rfl

theorem PriorityRepresents.push {entries : BTreeMap Key E} {positions : HashMap ℕ Key}
    (h : PriorityRepresents entries positions l) (x : Item E) (hx : x.id ∉ l.map Item.id) :
    PriorityRepresents (entries.insert x.key x.entry) (positions.insert x.id x.key)
      (l.orderedInsert Item.keyLe x) := by
  have hmem : ∀ y, y ∈ l.orderedInsert Item.keyLe x ↔ y = x ∨ y ∈ l := fun y => by
    rw [(List.perm_orderedInsert Item.keyLe x l).mem_iff, List.mem_cons]
  refine ⟨?_, fun id key => ?_, ?_⟩
  · rw [BTreeMap.entries_insert_of_new, h.entries, map_binding_orderedInsert]
    · rfl
    · intro e he hk
      rw [h.entries] at he
      obtain ⟨y, hy, rfl⟩ := List.mem_map.1 he
      exact hx (List.mem_map.2 ⟨y, hy, congrArg (fun k : Key => (ofLex k).2) hk⟩)
  · by_cases hid : id = x.id
    · subst hid
      rw [Finmap.lookup_insert, Option.some.injEq]
      constructor
      · rintro rfl
        exact ⟨x, (hmem x).2 (Or.inl rfl), rfl, rfl⟩
      · rintro ⟨y, hy, hyid, rfl⟩
        rcases (hmem y).1 hy with rfl | hy
        · rfl
        · exact absurd (hyid ▸ List.mem_map_of_mem hy) hx
    · rw [Finmap.lookup_insert_of_ne _ hid, h.positions]
      constructor
      · rintro ⟨y, hy, hk⟩
        exact ⟨y, (hmem y).2 (Or.inr hy), hk⟩
      · rintro ⟨y, hy, hyid, hk⟩
        rcases (hmem y).1 hy with rfl | hy
        · exact absurd hyid.symm hid
        · exact ⟨y, hy, hyid, hk⟩
  · rw [((List.perm_orderedInsert Item.keyLe x l).map Item.id).nodup_iff, List.map_cons,
      List.nodup_cons]
    exact ⟨hx, h.nodup⟩

/-- Pushing a task with a new id succeeds and queues it. -/
theorem push_represents (h : Represents p q l) (x : Item E) (hx : x.id ∉ l.map Item.id) :
    ∃ q', q.push x.id x.priority x.entry = some q' ∧ Represents p q' (Waiting.push p l x) := by
  cases p <;> cases q <;> first | exact h.elim | skip
  · exact FifoRepresents.push h x hx
  · exact ⟨_, rfl, PriorityRepresents.push h x hx⟩

/-! ### Popping -/

theorem pop_represents_nil (h : Represents p q []) : q.pop = some none := by
  cases p <;> cases q <;> first | exact h.elim | skip
  case false.fifo entries head tail =>
    obtain rfl : head = none := h.head
    rfl
  case true.priority entries positions =>
    obtain ⟨⟨es, hs⟩, rfl⟩ : ∃ m : BTreeMap Key E, m = entries := ⟨_, rfl⟩
    obtain rfl : es = [] := h.entries
    rfl

theorem FifoRepresents.pop {entries : HashMap ℕ (FifoEntry E)} {head tail : Option ℕ} {x : Item E}
    (h : FifoRepresents entries head tail (x :: l)) :
    ∃ q', (PendingQueue.fifo entries head tail).pop = some (some (x.link, q')) ∧
      Represents false q' l := by
  obtain ⟨⟨hx, hseg⟩, hhead, htail, hmem, hn⟩ := h
  rw [List.map_cons, List.nodup_cons] at hn
  obtain rfl : head = some x.id := hhead
  have hseg' : Segment (entries.erase x.id) (some x.id) (l.map Item.link) none :=
    hseg.erase_of_notMem (by rw [map_fst_link]; exact hn.1)
  have hmem' : ∀ k, k ∈ entries.erase x.id → k ∈ l.map Item.id := by
    intro k hk
    rw [Finmap.mem_erase] at hk
    rcases List.mem_cons.1 (hmem k hk.2) with he | hk'
    · exact absurd he hk.1
    · exact hk'
  change entries.lookup x.id = _ at hx
  simp only [PendingQueue.pop, bind, hx, Option.bind_some]
  cases l with
  | nil => exact ⟨_, rfl, trivial, rfl, rfl, hmem', hn.2⟩
  | cons y l =>
    have hkeys := hn.2
    rw [← map_fst_link] at hkeys
    obtain ⟨m, hm, hsegm, hmemm, -⟩ := hseg'.setPrevious hkeys none
    change update (entries.erase x.id) y.id _ = some m at hm
    refine ⟨.fifo m (some y.id) tail, ?_, hsegm, rfl, htail, fun k hk => hmem' k ((hmemm k).1 hk),
      hn.2⟩
    change (update (entries.erase x.id) y.id _).bind _ = _
    rw [hm]
    rfl

theorem PriorityRepresents.pop {entries : BTreeMap Key E} {positions : HashMap ℕ Key} {x : Item E}
    (h : PriorityRepresents entries positions (x :: l)) :
    ∃ q', (PendingQueue.priority entries positions).pop = some (some (x.link, q')) ∧
      Represents true q' l := by
  obtain ⟨⟨es, hs⟩, rfl⟩ : ∃ m : BTreeMap Key E, m = entries := ⟨_, rfl⟩
  obtain ⟨hes, hpos, hn⟩ := h
  rw [List.map_cons, List.nodup_cons] at hn
  obtain rfl : es = x.binding :: l.map Item.binding := hes
  refine ⟨_, rfl, rfl, fun id key => ?_, hn.2⟩
  change (positions.erase x.id).lookup id = some key ↔ _
  by_cases hid : id = x.id
  · subst hid
    rw [Finmap.lookup_erase]
    constructor
    · intro hc
      cases hc
    · rintro ⟨y, hy, hyid, -⟩
      exact absurd (hyid ▸ List.mem_map_of_mem hy) hn.1
  · rw [Finmap.lookup_erase_ne hid, hpos]
    constructor
    · rintro ⟨y, hy, hyid, hk⟩
      rcases List.mem_cons.1 hy with rfl | hy
      · exact absurd hyid.symm hid
      · exact ⟨y, hy, hyid, hk⟩
    · rintro ⟨y, hy, hk⟩
      exact ⟨y, List.mem_cons_of_mem _ hy, hk⟩

/-- Popping takes the first item. -/
theorem pop_represents {x : Item E} (h : Represents p q (x :: l)) :
    ∃ q', q.pop = some (some (x.link, q')) ∧ Represents p q' l := by
  cases p <;> cases q <;> first | exact h.elim | skip
  · exact FifoRepresents.pop h
  · exact PriorityRepresents.pop h

/-! ### Promoting -/

/-- Unlinking the node of `x` closes the gap between its neighbours. -/
theorem unlink_segment {m : HashMap ℕ (FifoEntry E)} {l₁ l₂ : List (ℕ × E)} {z x : ℕ × E}
    (h : Segment m none ((l₁ ++ [z]) ++ x :: l₂) none)
    (hn : (((l₁ ++ [z]) ++ x :: l₂).map Prod.fst).Nodup) (tail : Option ℕ) :
    ∃ m', unlink m tail (some z.1) (firstKey l₂ none) =
        some (m', if l₂.isEmpty then some z.1 else tail) ∧
      Segment m' none ((l₁ ++ [z]) ++ l₂) none ∧
      m'.lookup x.1 = m.lookup x.1 ∧ ∀ k, k ∈ m' ↔ k ∈ m := by
  obtain ⟨h₁, -, h₂⟩ := segment_append.1 h
  rw [List.map_append, List.nodup_append, List.map_cons, List.nodup_cons] at hn
  obtain ⟨hn₁, ⟨hx₂, hn₂⟩, hdisj⟩ := hn
  have hz : z.1 ∈ (l₁ ++ [z]).map Prod.fst := by simp
  have hzx : x.1 ≠ z.1 := fun he => hdisj _ hz x.1 (by simp) he.symm
  have hz₂ : ∀ k ∈ l₂.map Prod.fst, k ≠ z.1 := fun k hk he =>
    hdisj _ hz k (List.mem_cons_of_mem _ hk) he.symm
  obtain ⟨m₁, hm₁, hs₁, hmem₁, hout₁⟩ := h₁.setNext hn₁ (firstKey l₂ none)
  have hs₂ := h₂.congr fun k hk => hout₁ k (hz₂ k hk)
  simp only [unlink, bind, Option.bind_some, hm₁]
  cases l₂ with
  | nil =>
    refine ⟨m₁, rfl, ?_, hout₁ _ hzx, hmem₁⟩
    rw [List.append_nil]
    exact hs₁
  | cons y l₂ =>
    obtain ⟨m₂, hm₂, hs₂', hmem₂, hout₂⟩ := hs₂.setPrevious hn₂ (some z.1)
    have hy : y.1 ∈ (y :: l₂).map Prod.fst := by simp
    have hxy : x.1 ≠ y.1 := fun he => hx₂ (he ▸ hy)
    refine ⟨m₂, ?_, segment_append.2 ⟨hs₁.congr fun k hk => hout₂ k ?_, ?_⟩, ?_,
      fun k => (hmem₂ k).trans (hmem₁ k)⟩
    · simp only [firstKey, hm₂, Option.bind_some]
      rfl
    · exact hdisj k hk y.1 (List.mem_cons_of_mem _ hy)
    · rw [lastKey_append]
      exact hs₂'
    · rw [hout₂ _ hxy, hout₁ _ hzx]

/-- Linking the unlinked node of `x` before the first one. -/
theorem linkFirst_segment {m : HashMap ℕ (FifoEntry E)} {l : List (ℕ × E)} {a x : ℕ × E}
    (h : Segment m none (a :: l) none) (hn : ((x :: a :: l).map Prod.fst).Nodup)
    {n : FifoEntry E} (hx : m.lookup x.1 = some n) (he : n.entry = x.2) :
    ∃ m', linkFirst m (some a.1) x.1 = some m' ∧
      Segment m' none (x :: a :: l) none ∧ ∀ k, k ∈ m' ↔ k ∈ m := by
  rw [List.map_cons, List.nodup_cons] at hn
  obtain ⟨m₁, hm₁, hs₁, hmem₁, hout₁⟩ := h.setPrevious hn.2 (some x.1)
  have hx₁ : m₁.lookup x.1 = some n := by
    rw [hout₁ _ fun he => hn.1 (by rw [he]; simp)]
    exact hx
  refine ⟨m₁.insert x.1 ⟨n.entry, none, some a.1⟩, ?_,
    ⟨?_, hs₁.insert_of_notMem _ hn.1⟩, fun k => ?_⟩
  · simp only [linkFirst, bind, Option.bind_some, hm₁]
    rw [update, hx₁]
    rfl
  · rw [Finmap.lookup_insert, he]
    rfl
  · rw [Finmap.mem_insert, hmem₁]
    constructor
    · rintro (rfl | hk)
      · exact Finmap.mem_of_lookup_eq_some hx
      · exact hk
    · exact Or.inr

theorem FifoRepresents.promote {entries : HashMap ℕ (FifoEntry E)} {head tail : Option ℕ}
    (h : FifoRepresents entries head tail l) (id : ℕ) :
    ∃ q', (PendingQueue.fifo entries head tail).promote id = some (promotes false l id, q') ∧
      Represents false q' (Waiting.promote false l id) := by
  rcases promote_cases false l h.nodup id with ⟨hid, hw⟩ | ⟨l₁, x, l₂, rfl, rfl, hw⟩
  · -- no node with this id
    have hnone : entries.lookup id = none :=
      Finmap.lookup_eq_none.2 fun hm => hid (h.mem id hm)
    rw [hw]
    refine ⟨.fifo entries head tail, ?_, h⟩
    simp [PendingQueue.promote, hnone, promotes, hid]
  rw [hw, if_neg Bool.false_ne_true]
  cases l₁ with
  | nil =>
    -- the first node stays where it is
    obtain rfl : head = some x.id := h.head
    refine ⟨.fifo entries (some x.id) tail, ?_, h⟩
    simp [PendingQueue.promote, promotes]
  | cons a l₁ =>
    obtain ⟨hseg, hhead, htail, hmem, hn⟩ := h
    obtain rfl : head = some a.id := hhead
    have hax : a.id ≠ x.id := by
      rw [List.map_append, List.nodup_append] at hn
      exact hn.2.2 _ (by simp) _ (by simp)
    have hperm : ((x :: (a :: l₁ ++ l₂)).map Item.id).Perm ((a :: l₁ ++ x :: l₂).map Item.id) :=
      List.perm_middle.symm.map Item.id
    -- the last node before `x`
    obtain ⟨l₀, z, hz⟩ : ∃ l₀ z, (a :: l₁).map Item.link = l₀ ++ [z] :=
      ⟨_, _, (List.dropLast_append_getLast (by simp)).symm⟩
    have hkeys := hn
    rw [← map_fst_link, List.map_append, hz, List.map_cons] at hkeys
    rw [List.map_append, hz, List.map_cons] at hseg htail
    obtain ⟨m₁, hm₁, hs₁, hx₁, hmem₁⟩ := unlink_segment hseg hkeys tail
    have hx : entries.lookup x.id = some ⟨x.entry, some z.1, firstKey (l₂.map Item.link) none⟩ := by
      have := (segment_append.1 hseg).2.1
      rw [lastKey_append] at this
      exact this
    have hkeys₂ := hperm.nodup_iff.2 hn
    rw [← map_fst_link] at hkeys₂
    rw [← hz, ← List.map_append] at hs₁
    obtain ⟨m₂, hm₂, hs₂, hmem₂⟩ := linkFirst_segment hs₁ hkeys₂ (hx₁.trans hx) rfl
    have hb : promotes false (a :: l₁ ++ x :: l₂) x.id = true := by simp [promotes, hax]
    refine ⟨.fifo m₂ (some x.id) (if (l₂.map Item.link).isEmpty then some z.1 else tail),
      ?_, hs₂, rfl, ?_, fun k hk => ?_, hperm.nodup_iff.2 hn⟩
    · have hne : (some a.id : Option ℕ) ≠ some x.id := fun he => hax (Option.some.inj he)
      change linkFirst m₁ (some a.id) x.id = some m₂ at hm₂
      simp only [PendingQueue.promote, if_neg hne, hx, bind, hm₁, Option.bind_some, hm₂, hb]
    · rw [List.map_cons, List.map_append, hz]
      cases l₂ with
      | nil => simp [lastKey]
      | cons y l₂ => simp [htail, lastKey]
    · exact hperm.mem_iff.2 (hmem k ((hmem₁ k).1 ((hmem₂ k).1 hk)))

/-- One item fewer. -/
theorem PriorityRepresents.remove {entries : BTreeMap Key E} {positions : HashMap ℕ Key}
    {l₁ l₂ : List (Item E)} {x : Item E}
    (h : PriorityRepresents entries positions (l₁ ++ x :: l₂)) :
    x.id ∉ (l₁ ++ l₂).map Item.id ∧
      PriorityRepresents (entries.erase x.key) (positions.erase x.id) (l₁ ++ l₂) := by
  have hperm : (l₁ ++ x :: l₂).Perm (x :: (l₁ ++ l₂)) := List.perm_middle
  have hn := (hperm.map Item.id).nodup_iff.1 h.nodup
  rw [List.map_cons, List.nodup_cons] at hn
  have hentries : (entries.erase x.key).entries = (l₁ ++ l₂).map Item.binding := by
    rw [List.map_append]
    refine BTreeMap.entries_erase_middle (e := x.binding) ?_
    rw [h.entries, List.map_append, List.map_cons]
  refine ⟨hn.1, hentries, fun id key => ?_, hn.2⟩
  by_cases hid : id = x.id
  · subst hid
    rw [Finmap.lookup_erase]
    constructor
    · intro hc
      cases hc
    · rintro ⟨y, hy, hyid, -⟩
      exact absurd (hyid ▸ List.mem_map_of_mem hy) hn.1
  · rw [Finmap.lookup_erase_ne hid, h.positions]
    constructor
    · rintro ⟨y, hy, hyid, hk⟩
      rcases List.mem_cons.1 (hperm.mem_iff.1 hy) with rfl | hy
      · exact absurd hyid.symm hid
      · exact ⟨y, hy, hyid, hk⟩
    · rintro ⟨y, hy, hk⟩
      exact ⟨y, hperm.mem_iff.2 (List.mem_cons_of_mem _ hy), hk⟩

theorem PriorityRepresents.promote {entries : BTreeMap Key E} {positions : HashMap ℕ Key}
    (h : PriorityRepresents entries positions l) (id : ℕ) :
    ∃ q', (PendingQueue.priority entries positions).promote id = some (promotes true l id, q') ∧
      Represents true q' (Waiting.promote true l id) := by
  rcases promote_cases true l h.nodup id with ⟨hid, hw⟩ | ⟨l₁, x, l₂, rfl, rfl, hw⟩
  · have hnone : positions.lookup id = none := by
      rw [Option.eq_none_iff_forall_ne_some]
      intro key hkey
      obtain ⟨y, hy, rfl, -⟩ := (h.positions id key).1 hkey
      exact hid (List.mem_map_of_mem hy)
    rw [hw]
    have hb : promotes true l id = false := by simpa [promotes] using hid
    refine ⟨.priority entries positions, ?_, h⟩
    simp only [PendingQueue.promote, hnone, hb]
  · have hx : x ∈ l₁ ++ x :: l₂ := by simp
    have hpos : positions.lookup x.id = some x.key := (h.positions _ _).2 ⟨x, hx, rfl, rfl⟩
    have hget : entries.get x.key = some x.entry := by
      rw [BTreeMap.get_eq_some_iff, h.entries]
      exact List.mem_map_of_mem hx
    obtain ⟨hxid, hrest⟩ := h.remove
    have hpush := hrest.push { x with priority := Int32.minValue } hxid
    have hindex : (positions.erase x.id).insert x.id (toLex (Int32.minValue, x.id)) =
        positions.insert x.id (toLex (Int32.minValue, x.id)) := by
      refine Finmap.ext_lookup fun k => ?_
      by_cases hk : k = x.id
      · subst hk
        rw [Finmap.lookup_insert, Finmap.lookup_insert]
      · rw [Finmap.lookup_insert_of_ne _ hk, Finmap.lookup_insert_of_ne _ hk,
          Finmap.lookup_erase_ne hk]
    have hb : promotes true (l₁ ++ x :: l₂) x.id = true := by simp [promotes]
    refine ⟨.priority ((entries.erase x.key).insert (toLex (Int32.minValue, x.id)) x.entry)
      (positions.insert x.id (toLex (Int32.minValue, x.id))), ?_, ?_⟩
    · simp only [PendingQueue.promote, hpos, bind, hget, Option.bind_some, hb]
      rfl
    · rw [hw, if_pos rfl, ← hindex]
      exact hpush

/-- Promoting never fails, and tells whether it has found something to do. -/
theorem promote_represents (h : Represents p q l) (id : ℕ) :
    ∃ q', q.promote id = some (promotes p l id, q') ∧
      Represents p q' (Waiting.promote p l id) := by
  cases p <;> cases q <;> first | exact h.elim | skip
  · exact FifoRepresents.promote h id
  · exact PriorityRepresents.promote h id

/-- The list of a priority queue is in the order of the keys. -/
theorem sorted_of_represents {q : PendingQueue E} (h : Represents true q l) :
    l.Pairwise fun x y => x.key < y.key := by
  cases q with
  | fifo entries head tail => exact h.elim
  | priority entries positions =>
    have hs := entries.sorted
    rw [PriorityRepresents.entries h, List.pairwise_map] at hs
    exact hs

end PendingQueue

end ServiceLib
