import ServiceLib.Pool.PendingQueue

/-!
# The pending queue refines a list

`PendingQueue` in `src/runtime/pool/queuedpool.rs`, used in any way: a sequence of `push`, `pop` and
`promote` with new ids is run on the linked list or the tree, and on the list of the items in the
order in which they are popped.

**Theorem (`pendingQueue_refines`).** Both give the same answers, no `unwrap` fails, and `len` is the
length of the list. The list of a priority queue is in the order of the keys, with the least priority
for what was promoted. What was popped and what still waits is together what was pushed, so each
entry is popped at most once, under its own id.
-/

namespace ServiceLib

variable {E : Type}

/-! ## Sequences of operations -/

inductive QueueOp (E : Type)
  | push (id : ℕ) (priority : Int32) (entry : E)
  | pop
  | promote (id : ℕ)

inductive QueueAnswer (E : Type)
  | pushed
  | popped (result : Option (ℕ × E))
  | promoted (result : Bool)

namespace QueueOp

/-- The ids and entries that are pushed. -/
def pushes : List (QueueOp E) → List (ℕ × E)
  | [] => []
  | .push id _ entry :: ops => (id, entry) :: pushes ops
  | .pop :: ops => pushes ops
  | .promote _ :: ops => pushes ops

theorem pushes_cons (op : QueueOp E) (ops : List (QueueOp E)) :
    pushes (op :: ops) = pushes [op] ++ pushes ops := by
  cases op <;> rfl

end QueueOp

namespace QueueAnswer

/-- The ids and entries that are popped. -/
def pops : List (QueueAnswer E) → List (ℕ × E)
  | [] => []
  | .popped (some x) :: answers => x :: pops answers
  | .popped none :: answers => pops answers
  | .pushed :: answers => pops answers
  | .promoted _ :: answers => pops answers

theorem pops_cons (answer : QueueAnswer E) (answers : List (QueueAnswer E)) :
    pops (answer :: answers) = pops [answer] ++ pops answers := by
  cases answer with
  | popped result => cases result <;> rfl
  | pushed => rfl
  | promoted result => rfl

end QueueAnswer

namespace PendingQueue

def apply (q : PendingQueue E) : QueueOp E → Option (QueueAnswer E × PendingQueue E)
  | .push id prio entry => (q.push id prio entry).map fun q => (.pushed, q)
  | .pop => q.pop.map fun
    | none => (.popped none, q)
    | some (x, q) => (.popped (some x), q)
  | .promote id => (q.promote id).map fun (b, q) => (.promoted b, q)

/-- `none` if an `unwrap` has failed. -/
def exec : PendingQueue E → List (QueueOp E) → Option (List (QueueAnswer E) × PendingQueue E)
  | q, [] => some ([], q)
  | q, op :: ops => do
    let (answer, q) ← q.apply op
    let (answers, q) ← exec q ops
    some (answer :: answers, q)

end PendingQueue

namespace Waiting

def apply (priority : Bool) (l : List (Item E)) : QueueOp E → QueueAnswer E × List (Item E)
  | .push id prio entry => (.pushed, push priority l ⟨id, prio, entry⟩)
  | .pop =>
    match l with
    | [] => (.popped none, [])
    | x :: l => (.popped (some x.link), l)
  | .promote id => (.promoted (promotes priority l id), promote priority l id)

def exec (priority : Bool) : List (Item E) → List (QueueOp E) → List (QueueAnswer E) × List (Item E)
  | l, [] => ([], l)
  | l, op :: ops =>
    let (answer, l) := apply priority l op
    let (answers, l) := exec priority l ops
    (answer :: answers, l)

end Waiting

/-! ## One operation -/

namespace PendingQueue

variable {p : Bool} {q : PendingQueue E} {l : List (Item E)}

/-- The id of a push is not that of a waiting task. -/
def New (l : List (Item E)) : QueueOp E → Prop
  | .push id _ _ => id ∉ l.map Item.id
  | .pop | .promote _ => True

theorem apply_represents (h : Represents p q l) {op : QueueOp E} (hnew : New l op) :
    ∃ q', q.apply op = some ((Waiting.apply p l op).1, q') ∧
      Represents p q' (Waiting.apply p l op).2 := by
  cases op with
  | push id prio entry =>
    obtain ⟨q', hq', hrep⟩ := push_represents h ⟨id, prio, entry⟩ hnew
    refine ⟨q', ?_, hrep⟩
    rw [apply, hq']
    rfl
  | pop =>
    cases l with
    | nil =>
      refine ⟨q, ?_, h⟩
      rw [apply, pop_represents_nil h]
      rfl
    | cons x l =>
      obtain ⟨q', hq', hrep⟩ := pop_represents h
      refine ⟨q', ?_, hrep⟩
      rw [apply, hq']
      rfl
  | promote id =>
    obtain ⟨q', hq', hrep⟩ := promote_represents h id
    refine ⟨q', ?_, hrep⟩
    rw [apply, hq']
    rfl

/-- What was pushed is popped or waits. -/
theorem apply_perm (hn : (l.map Item.id).Nodup) (op : QueueOp E) :
    (QueueAnswer.pops [(Waiting.apply p l op).1] ++ (Waiting.apply p l op).2.map Item.link).Perm
      (QueueOp.pushes [op] ++ l.map Item.link) := by
  cases op with
  | push id prio entry => exact (Waiting.push_perm p l ⟨id, prio, entry⟩).map Item.link
  | pop => cases l <;> exact List.Perm.refl _
  | promote id => exact Waiting.promote_perm p l hn id

/-! ## All operations -/

theorem new_of_nodup {op : QueueOp E} {ops : List (QueueOp E)}
    (hn : ((l.map Item.link ++ QueueOp.pushes (op :: ops)).map Prod.fst).Nodup) : New l op := by
  cases op with
  | push id prio entry =>
    rw [List.map_append, map_fst_link, List.nodup_append] at hn
    exact fun hid => hn.2.2 id hid id (by simp [QueueOp.pushes]) rfl
  | pop => trivial
  | promote id => trivial

/-- From any queue that represents a list, with ids that are new to it. -/
theorem exec_represents (ops : List (QueueOp E)) : ∀ {q : PendingQueue E} {l : List (Item E)},
    Represents p q l → ((l.map Item.link ++ QueueOp.pushes ops).map Prod.fst).Nodup →
      ∃ q', q.exec ops = some ((Waiting.exec p l ops).1, q') ∧
        Represents p q' (Waiting.exec p l ops).2 ∧
        (QueueAnswer.pops (Waiting.exec p l ops).1 ++
          (Waiting.exec p l ops).2.map Item.link).Perm (l.map Item.link ++ QueueOp.pushes ops) := by
  induction ops with
  | nil =>
    intro q l h _
    refine ⟨q, rfl, h, ?_⟩
    rw [QueueOp.pushes, List.append_nil]
    exact List.Perm.refl _
  | cons op ops ih =>
    intro q l h hn
    obtain ⟨q₁, hq₁, h₁⟩ := apply_represents h (new_of_nodup hn)
    have hperm : (QueueAnswer.pops [(Waiting.apply p l op).1] ++
        ((Waiting.apply p l op).2.map Item.link ++ QueueOp.pushes ops)).Perm
        (l.map Item.link ++ QueueOp.pushes (op :: ops)) := by
      rw [← List.append_assoc, QueueOp.pushes_cons, ← List.append_assoc]
      exact ((apply_perm h.nodup op).trans List.perm_append_comm).append_right _
    have hn₁ := (hperm.map Prod.fst).nodup_iff.2 hn
    rw [List.map_append, List.nodup_append] at hn₁
    obtain ⟨q', hq', h', hperm'⟩ := ih h₁ hn₁.2.1
    refine ⟨q', ?_, h', ?_⟩
    · rw [exec, hq₁]
      simp only [Option.bind_eq_bind, Option.bind_some, hq']
      rfl
    · rw [Waiting.exec, QueueAnswer.pops_cons, List.append_assoc]
      exact (hperm'.append_left _).trans hperm

/-- **The queue is a list.** Every sequence of operations in which no id is pushed twice gives the
answers of the list in the order of popping, and `len` is its length. A priority queue keeps that
list in the order of the keys. Nothing is lost, and nothing is popped twice. -/
theorem pendingQueue_refines (p : Bool) (ops : List (QueueOp E))
    (hfresh : ((QueueOp.pushes ops).map Prod.fst).Nodup) :
    ∃ q : PendingQueue E, (PendingQueue.new p).exec ops = some ((Waiting.exec p [] ops).1, q) ∧
      q.len = (Waiting.exec p [] ops).2.length ∧
      (p = true → (Waiting.exec p [] ops).2.Pairwise fun x y => x.key < y.key) ∧
      (QueueAnswer.pops (Waiting.exec p [] ops).1 ++
        (Waiting.exec p [] ops).2.map Item.link).Perm (QueueOp.pushes ops) ∧
      ((QueueAnswer.pops (Waiting.exec p [] ops).1).map Prod.fst).Nodup := by
  obtain ⟨q, hq, hrep, hperm⟩ := exec_represents ops (new_represents p) hfresh
  refine ⟨q, hq, hrep.len, fun hp => ?_, hperm, ?_⟩
  · subst hp
    exact sorted_of_represents hrep
  · have hn := (hperm.map Prod.fst).nodup_iff.2 hfresh
    rw [List.map_append, List.nodup_append] at hn
    exact hn.1

/-- A task of low priority that is promoted is popped before one of high priority; the first task
of a linked list cannot be promoted. -/
theorem pendingQueue_refines_promoted :
    (∃ q : PendingQueue ℕ, (PendingQueue.new true).exec
      [.push 0 1 7, .push 1 5 8, .promote 1, .pop, .promote 1] =
        some ([.pushed, .pushed, .promoted true, .popped (some (1, 8)), .promoted false], q) ∧
      q.len = 1) ∧
    ∃ q : PendingQueue ℕ, (PendingQueue.new false).exec
      [.push 0 1 7, .push 1 5 8, .promote 0, .promote 1, .pop] =
        some ([.pushed, .pushed, .promoted false, .promoted true, .popped (some (1, 8))], q) ∧
      q.len = 1 := by
  obtain ⟨q, hq, hlen, -⟩ := pendingQueue_refines true
    [.push 0 1 7, .push 1 5 8, .promote 1, .pop, .promote (1 : ℕ)] (by decide)
  obtain ⟨q', hq', hlen', -⟩ := pendingQueue_refines false
    [.push 0 1 7, .push 1 5 8, .promote 0, .promote 1, (.pop : QueueOp ℕ)] (by decide)
  exact ⟨⟨q, hq, hlen⟩, q', hq', hlen'⟩

end PendingQueue

end ServiceLib
