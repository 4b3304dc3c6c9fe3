import ServiceLib.Pool.ExactlyOnce

/-!
# Which task is dispatched first

The actor polls the cancellations of queued tasks before it receives a command, so that a queued
task whose context is cancelled is promoted before the next callback starts. This holds as long as
the cancellation branch is in force: an entry that an earlier dispatch has aborted yields
`Err(Aborted)`, the pattern `Some(Ok(id))` does not match it, and the branch is disabled for the
rest of that `select!` call. A command received in such a call dispatches whatever is in front
(`stale_abort_dispatch`).

`Timely` is the condition under which the order is kept, and `cancelled_first` proves it for every
run whose steps are timely. The invariant `Front` says that the promoted tasks are in front of the
queue, that they are cancelled, and that every other queued task is still watched.
-/

namespace ServiceLib

namespace QueuedPool

/-! ## The condition -/

/-- No queued task has a cancellation that is ready and not polled yet. -/
def NoneReady (s : State) : Prop :=
  ∀ c ∈ s.run.cancellations, c.aborted = false → s.cancelled c.context = false

instance (s : State) : Decidable (NoneReady s) :=
  inferInstanceAs (Decidable (∀ c ∈ s.run.cancellations, _ → _))

/-- A step that keeps the order of dispatch: no command is received in a `select!` call whose
cancellation branch is disabled while a queued task is cancelled; no queued task is cancelled
between the two polls of one `select!` call; and no task of a priority pool has the priority that
promotion gives. -/
def Timely (cfg : Config) (s : State) : Action → Prop
  | .recv => s.actor = .select .commands true → NoneReady s
  | .cancel context => s.actor = .select .commands false →
      ∀ c ∈ s.run.cancellations, c.aborted = false → c.context ≠ context
  | .addTask _ _ priority => cfg.priority = true → priority ≠ Int32.minValue
  | _ => True

/-! ## The invariant -/

/-- The promoted tasks, `P`, are in front; the others are watched. -/
structure Front (cfg : Config) (s : State) (l : List (Item Entry)) (P : Set ℕ) : Prop where
  fifo : cfg.priority = false → l.Pairwise fun x y => y.id ∈ P → x.id ∈ P
  priority : cfg.priority = true → ∀ x ∈ l, (x.priority = Int32.minValue ↔ x.id ∈ P)
  promoted : ∀ x ∈ l, x.id ∈ P → s.isCancelled x.entry.task = true
  watched : ∀ x ∈ l, x.id ∉ P → ∃ c ∈ s.run.cancellations, c.id = x.id ∧ c.aborted = false
  contexts : ∀ c ∈ s.run.cancellations, ∀ x ∈ l, c.id = x.id →
    c.context = (s.adds x.entry.task).context
  handles : ∀ x ∈ l, x.entry.cancellation = x.id
  ids : (∀ c ∈ s.run.cancellations, c.id < s.run.nextId) ∧ ∀ i ∈ P, i < s.run.nextId
  dispatched : ∀ d ∈ s.dispatched, d.cancelledQueued = true → d.cancelled = true

/-- A command carries what its call was made with. -/
def Command.Matches (adds : ℕ → AddCall) : Command → Prop
  | .add context priority task =>
    context = (adds task).context ∧ priority = (adds task).priority
  | _ => True

/-- The invariant of timely runs. -/
structure Ordered (cfg : Config) (s : State) (l : List (Item Entry)) (P : Set ℕ) : Prop where
  ok : Ok cfg s l
  front : Front cfg s l P
  settled : Settled s.run l
  commands : ∀ c ∈ s.channel, c.Matches s.adds
  calls : cfg.priority = true → ∀ i, (s.adds i).priority ≠ Int32.minValue
  polled : s.actor = .select .commands false → NoneReady s

theorem ordered_init (cfg : Config) : Ordered cfg (.init cfg) [] ∅ := by
  refine ⟨ok_init cfg, ⟨fun _ => List.Pairwise.nil, fun _ => nofun, nofun, nofun, nofun, nofun,
    ⟨nofun, nofun⟩, nofun⟩, fun ha => ?_, nofun, fun _ i => ?_, nofun⟩
  · cases ha.1
  · change (0 : Int32) ≠ Int32.minValue
    decide

variable {cfg : Config} {s t : State} {l : List (Item Entry)} {P : Set ℕ}

/-- The invariant reads little of the state. -/
theorem Front.frame (h : Front cfg s l P) (hq : t.run.cancellations = s.run.cancellations)
    (hn : t.run.nextId = s.run.nextId)
    (hctx : ∀ x ∈ l, (t.adds x.entry.task).context = (s.adds x.entry.task).context)
    (hcan : ∀ c, s.cancelled c = true → t.cancelled c = true)
    (hd : t.dispatched = s.dispatched) : Front cfg t l P := by
  refine ⟨h.fifo, h.priority, fun x hx hp => ?_, ?_, ?_, h.handles, ?_, ?_⟩
  · unfold State.isCancelled
    rw [hctx x hx]
    exact hcan _ (h.promoted x hx hp)
  · rw [hq]
    exact h.watched
  · rw [hq]
    intro c hc x hx he
    rw [hctx x hx]
    exact h.contexts c hc x hx he
  · rw [hq, hn]
    exact h.ids
  · rw [hd]
    exact h.dispatched

/-! ## Which task is first -/

/-- When a promoted task waits, the first one is promoted. -/
theorem Front.first {x y : Item Entry} {q : PendingQueue Entry} (h : Front cfg s (x :: l) P)
    (hq : PendingQueue.Represents cfg.priority q (x :: l)) (hy : y ∈ x :: l) (hp : y.id ∈ P) :
    x.id ∈ P := by
  rcases List.mem_cons.1 hy with rfl | hy'
  · exact hp
  cases hc : cfg.priority with
  | false => exact List.rel_of_pairwise_cons (h.fifo hc) hy' hp
  | true =>
    rw [hc] at hq
    have hlt := List.rel_of_pairwise_cons (PendingQueue.sorted_of_represents hq) hy'
    have hy₀ := (h.priority hc y hy).2 hp
    refine (h.priority hc x List.mem_cons_self).1 ?_
    have hle : x.priority ≤ y.priority := by
      rcases Prod.Lex.toLex_lt_toLex.1 hlt with hlt | ⟨he, -⟩
      · exact le_of_lt hlt
      · exact le_of_eq he
    rw [hy₀] at hle
    exact le_antisymm hle (minValue_le _)

/-- **The order of dispatch.** When no cancellation is waiting to be polled, a pop from a queue that
holds a cancelled task takes a cancelled task. -/
theorem Front.pop {x : Item Entry} (h : Front cfg s (x :: l) P)
    (hq : PendingQueue.Represents cfg.priority s.run.queue (x :: l)) (hn : NoneReady s)
    (hc : (s.run.queue.any fun e => s.isCancelled e.task) = true) :
    s.isCancelled x.entry.task = true := by
  rw [hq.any, List.any_eq_true] at hc
  obtain ⟨y, hy, hcy⟩ := hc
  have hp : y.id ∈ P := by
    by_contra hp
    obtain ⟨c, hcm, hid, hab⟩ := h.watched y hy hp
    have hctx := h.contexts c hcm y hy hid
    have := hn c hcm hab
    rw [hctx] at this
    exact absurd (hcy.symm.trans this) nofun
  exact h.promoted x List.mem_cons_self (h.first hq hy hp)

/-! ## The loops -/

theorem mem_abort {handle : ℕ} {cs : List Cancellation} {c : Cancellation} (h : c ∈ abort handle cs) :
    ∃ c₀ ∈ cs, c₀.id = c.id ∧ c₀.context = c.context ∧ (c.aborted = false → c₀ = c) := by
  obtain ⟨c₀, hc₀, rfl⟩ := List.mem_map.1 h
  refine ⟨c₀, hc₀, ?_⟩
  by_cases hid : c₀.id = handle
  · rw [if_pos hid]
    exact ⟨rfl, rfl, nofun⟩
  · rw [if_neg hid]
    exact ⟨rfl, rfl, fun _ => rfl⟩

theorem mem_abort_of_ne {handle : ℕ} {cs : List Cancellation} {c : Cancellation} (h : c ∈ cs)
    (hid : c.id ≠ handle) : c ∈ abort handle cs :=
  List.mem_map.2 ⟨c, h, if_neg hid⟩

theorem Front.dispatch {x : Item Entry} {queue : PendingQueue Entry} {w : ℕ} {idle : List ℕ}
    (h : Front cfg s (x :: l) P)
    (hq : PendingQueue.Represents cfg.priority s.run.queue (x :: l)) (hn : NoneReady s) :
    Front cfg (dispatchedTo s queue x.entry w idle) l P ∧
      NoneReady (dispatchedTo s queue x.entry w idle) := by
  have hmem : ∀ y ∈ l, y ∈ x :: l := fun y hy => List.mem_cons_of_mem _ hy
  have hnodup := hq.nodup
  rw [List.map_cons, List.nodup_cons] at hnodup
  refine ⟨⟨fun hc => (h.fifo hc).of_cons, fun hc y hy => h.priority hc y (hmem y hy),
    fun y hy => h.promoted y (hmem y hy), fun y hy hp => ?_, fun c hc y hy he => ?_,
    fun y hy => h.handles y (hmem y hy), ⟨fun c hc => ?_, h.ids.2⟩, fun d hd => ?_⟩, ?_⟩
  · obtain ⟨c, hc, hid, hab⟩ := h.watched y (hmem y hy) hp
    refine ⟨c, mem_abort_of_ne hc ?_, hid, hab⟩
    rw [hid, h.handles x List.mem_cons_self]
    exact fun he => hnodup.1 (he ▸ List.mem_map_of_mem hy)
  · obtain ⟨c₀, hc₀, hid, hctx, -⟩ := mem_abort hc
    rw [← hctx]
    exact h.contexts c₀ hc₀ y (hmem y hy) (hid.trans he)
  · obtain ⟨c₀, hc₀, hid, -⟩ := mem_abort hc
    rw [← hid]
    exact h.ids.1 c₀ hc₀
  · rcases List.mem_append.1 hd with hd | hd
    · exact h.dispatched d hd
    · rw [List.mem_singleton.1 hd]
      exact h.pop hq hn
  · intro c hc hab
    obtain ⟨c₀, hc₀, -, -, heq⟩ := mem_abort hc
    exact hn c (heq hab ▸ hc₀) hab

/-- What comes after the loops writes nothing that the order depends on. -/
theorem endLoop_fields (t : State) :
    (endLoop (beginRetiring t)).run.cancellations = t.run.cancellations ∧
    (endLoop (beginRetiring t)).run.nextId = t.run.nextId ∧
    (∀ i, ((endLoop (beginRetiring t)).adds i).context = (t.adds i).context ∧
      ((endLoop (beginRetiring t)).adds i).priority = (t.adds i).priority) ∧
    (endLoop (beginRetiring t)).cancelled = t.cancelled ∧
    (endLoop (beginRetiring t)).dispatched = t.dispatched ∧
    (∀ c ∈ (endLoop (beginRetiring t)).channel, c ∈ t.channel) ∧
    (endLoop (beginRetiring t)).actor ≠ .select .commands false := by
  have hb : (beginRetiring t).run.cancellations = t.run.cancellations ∧
      (beginRetiring t).run.nextId = t.run.nextId ∧ (beginRetiring t).adds = t.adds ∧
      (beginRetiring t).cancelled = t.cancelled ∧ (beginRetiring t).dispatched = t.dispatched ∧
      (beginRetiring t).channel = t.channel := by
    unfold beginRetiring
    split_ifs <;> exact ⟨rfl, rfl, rfl, rfl, rfl, rfl⟩
  obtain ⟨h₁, h₂, h₃, h₄, h₅, h₆⟩ := hb
  unfold endLoop
  split_ifs
  · refine ⟨h₁, h₂, fun i => ?_, h₄, h₅, nofun, nofun⟩
    rw [← h₃]
    change (if _ then _ else _ : AddCall).context = _ ∧ (if _ then _ else _ : AddCall).priority = _
    split_ifs <;> exact ⟨rfl, rfl⟩
  · exact ⟨h₁, h₂, fun i => by rw [← h₃]; exact ⟨rfl, rfl⟩, h₄, h₅, fun c hc => h₆ ▸ hc, nofun⟩

theorem Settled.endLoop (h : Settled t.run l) :
    Settled (QueuedPool.endLoop (QueuedPool.beginRetiring t)).run l := by
  have hb : Settled (QueuedPool.beginRetiring t).run l := by
    unfold QueuedPool.beginRetiring
    split_ifs
    · intro ha
      cases ha.2
    · exact h
  unfold QueuedPool.endLoop
  split_ifs
  · exact hb
  · exact hb

theorem Command.Matches.congr {adds adds' : ℕ → AddCall} {c : Command} (h : c.Matches adds)
    (ha : ∀ i, (adds' i).context = (adds i).context ∧ (adds' i).priority = (adds i).priority) :
    c.Matches adds' := by
  cases c with
  | add context priority task =>
    obtain ⟨h₁, h₂⟩ := h
    exact ⟨h₁.trans (ha task).1.symm, h₂.trans (ha task).2.symm⟩
  | start _ | resize _ | stop | ready _ => trivial

/-- Between two rounds of the loops that started in `s`: either the poll left nothing ready, or there
is nothing to hand over. -/
structure Between (cfg : Config) (P : Set ℕ) (s t : State) (l : List (Item Entry)) : Prop where
  core : Core cfg t l
  kept : Kept s t
  front : Front cfg t l P
  quiet : NoneReady t ∨ Settled t.run l

theorem Between.retire (h : Between cfg P s t l) {w : ℕ} {idle : List ℕ} (ha : Active t.run)
    (hi : t.run.idle = w :: idle) (hlt : t.run.target < t.run.executors.card) :
    Between cfg P s { t with run := { t.run with
      executors := t.run.executors.erase w, idle := idle } } l := by
  refine ⟨h.core.retire hi, h.kept.trans ⟨rfl, rfl⟩,
    h.front.frame rfl rfl (fun _ _ => rfl) (fun _ => id) rfl, ?_⟩
  rcases h.quiet with hn | hset
  · exact Or.inl hn
  · refine Or.inr fun _ => ?_
    rcases (hset ha).2 with hidle | hl
    · rw [hi] at hidle
      cases hidle
    · refine ⟨?_, Or.inr hl⟩
      have hcard := Finset.card_erase_add_one (h.core.run.idleMem w (hi ▸ List.mem_cons_self))
      change t.run.target ≤ (t.run.executors.erase w).card
      omega

theorem Between.spawn (h : Between cfg P s t l) (ha : Active t.run)
    (hlt : t.run.executors.card < t.run.target) : Between cfg P s (spawned t) l := by
  refine ⟨h.core.spawn ha.2, h.kept.trans ⟨rfl, rfl⟩,
    h.front.frame rfl rfl (fun _ _ => rfl) (fun _ => id) rfl, ?_⟩
  rcases h.quiet with hn | hset
  · exact Or.inl hn
  · have := (hset ha).1
    omega

theorem Between.dispatch {x : Item Entry} {queue : PendingQueue Entry} {w : ℕ} {idle : List ℕ}
    (h : Between cfg P s t (x :: l)) (ha : Active t.run) (hi : t.run.idle = w :: idle)
    (hq : PendingQueue.Represents cfg.priority queue l) :
    Between cfg P s (dispatchedTo t queue x.entry w idle) l := by
  rcases h.quiet with hn | hset
  · obtain ⟨hf, hn⟩ := h.front.dispatch h.core.run.queue hn
    exact ⟨h.core.dispatch hi hq, h.kept.trans ⟨rfl, rfl⟩, hf, Or.inl hn⟩
  · rcases (hset ha).2 with hidle | hl
    · rw [hi] at hidle
      cases hidle
    · cases hl

/-- The actor settles. -/
theorem Ordered.settle (hcore : Core cfg s l) (hfront : Front cfg s l P)
    (hn : NoneReady s ∨ Settled s.run l) (hcommands : ∀ c ∈ s.channel, c.Matches s.adds)
    (hcalls : cfg.priority = true → ∀ i, (s.adds i).priority ≠ Int32.minValue)
    (hl : s.launched = true) (hd : s.drained = false) (hst : ∀ i, s.stops i ≠ .returned) :
    ∃ t l', settle s = some t ∧ Ordered cfg t l' P := by
  obtain ⟨t, l', ht, hb, hset⟩ := settle_rule (I := Between cfg P s) (fun h => h.core)
    (fun h => h.retire) (fun h => h.spawn) (fun h => h.dispatch) ⟨hcore, Kept.refl s, hfront, hn⟩
  obtain ⟨f₁, f₂, f₃, f₄, f₅, f₆, f₇⟩ := endLoop_fields t
  have hadds : t.adds = s.adds := by rw [hb.kept.rest]
  have hchannel : t.channel = s.channel := by rw [hb.kept.rest]
  refine ⟨_, l', ht, hb.kept.endLoop hb.core hl hd hst,
    hb.front.frame f₁ f₂ (fun x _ => (f₃ _).1) (fun c hcc => by rw [f₄]; exact hcc) f₅,
    hset.endLoop, fun c hc => ?_, fun hp i => ?_, fun ha => absurd ha f₇⟩
  · refine Command.Matches.congr ?_ f₃
    rw [hadds]
    exact hcommands c (hchannel ▸ f₆ c hc)
  · rw [(f₃ i).2, hadds]
    exact hcalls hp i

/-! ## Polling the cancellations -/

theorem mem_eraseIdx_of_ne {cs : List Cancellation} {k : ℕ} {c c' : Cancellation}
    (hk : cs[k]? = some c) (hc : c' ∈ cs) (hne : c' ≠ c) : c' ∈ cs.eraseIdx k := by
  rw [List.mem_eraseIdx_iff_getElem?]
  obtain ⟨i, hi⟩ := List.mem_iff_getElem?.1 hc
  refine ⟨i, fun he => hne ?_, hi⟩
  subst he
  exact Option.some.inj (hi.symm.trans hk)

/-- An aborted entry is consumed; nothing is watched by it. -/
theorem Front.dropAborted (h : Front cfg s l P) {k : ℕ} {c : Cancellation}
    (hk : s.run.cancellations[k]? = some c) (hab : c.aborted = true) :
    Front cfg { s with run := { s.run with
      cancellations := s.run.cancellations.eraseIdx k } } l P := by
  have hsub : ∀ c' ∈ s.run.cancellations.eraseIdx k, c' ∈ s.run.cancellations := fun c' =>
    List.mem_of_mem_eraseIdx
  refine ⟨h.fifo, h.priority, h.promoted, fun x hx hp => ?_, fun c' hc' => h.contexts c' (hsub c' hc'),
    h.handles, ⟨fun c' hc' => h.ids.1 c' (hsub c' hc'), h.ids.2⟩, h.dispatched⟩
  obtain ⟨c', hc', hid, hab'⟩ := h.watched x hx hp
  refine ⟨c', mem_eraseIdx_of_ne hk hc' fun he => ?_, hid, hab'⟩
  rw [he, hab] at hab'
  cases hab'

/-- The entry of a cancelled task is consumed and the task promoted. -/
theorem Front.promote (h : Front cfg s l P) (hn : (l.map Item.id).Nodup) {k : ℕ} {c : Cancellation}
    (hk : s.run.cancellations[k]? = some c) (hc : s.cancelled c.context = true)
    (queue : PendingQueue Entry) :
    Front cfg { s with run := { s.run with
      queue := queue, cancellations := s.run.cancellations.eraseIdx k } }
      (Waiting.promote cfg.priority l c.id) (insert c.id P) := by
  have hcm : c ∈ s.run.cancellations := List.mem_of_getElem? hk
  have hsub : ∀ c' ∈ s.run.cancellations.eraseIdx k, c' ∈ s.run.cancellations := fun c' =>
    List.mem_of_mem_eraseIdx
  -- every waiting item was waiting before, with another priority perhaps
  have hback : ∀ y ∈ Waiting.promote cfg.priority l c.id, ∃ x ∈ l, x.id = y.id ∧ x.entry = y.entry := by
    intro y hy
    have hp := (Waiting.promote_perm cfg.priority l hn c.id).mem_iff.1 (List.mem_map_of_mem hy)
    obtain ⟨x, hx, he⟩ := List.mem_map.1 hp
    exact ⟨x, hx, congrArg Prod.fst he, congrArg Prod.snd he⟩
  refine ⟨fun hd => ?_, fun hd y hy => ?_, fun y hy hp => ?_, fun y hy hp => ?_,
    fun c' hc' y hy he => ?_, fun y hy => ?_,
    ⟨fun c' hc' => h.ids.1 c' (hsub c' hc'), fun i hi => ?_⟩, h.dispatched⟩
  · -- a list that is promoted in front stays in order
    rcases Waiting.promote_cases cfg.priority l hn c.id with ⟨hid, hw⟩ | ⟨l₁, x, l₂, rfl, hx, hw⟩
    · rw [hw]
      refine (h.fifo hd).imp_of_mem fun {x y} hx hy hxy hp => ?_
      rcases Set.mem_insert_iff.1 hp with he | hp
      · exact absurd (he ▸ List.mem_map_of_mem hy) hid
      · exact Set.mem_insert_of_mem _ (hxy hp)
    · have hperm : (l₁ ++ x :: l₂).Perm (x :: (l₁ ++ l₂)) := List.perm_middle
      have hnx := (hperm.map Item.id).nodup_iff.1 hn
      rw [List.map_cons, List.nodup_cons] at hnx
      rw [hw, hd, if_neg Bool.false_ne_true, List.pairwise_cons]
      refine ⟨fun y _ _ => Set.mem_insert_iff.2 (Or.inl hx), ?_⟩
      have hrest : (l₁ ++ l₂).Pairwise fun x y => y.id ∈ P → x.id ∈ P :=
        (h.fifo hd).sublist ((List.sublist_cons_self x l₂).append_left l₁)
      refine hrest.imp_of_mem fun {z y} hz hy hzy hp => ?_
      rcases Set.mem_insert_iff.1 hp with he | hp
      · exact absurd (by rw [hx, ← he]; exact List.mem_map_of_mem hy) hnx.1
      · exact Set.mem_insert_of_mem _ (hzy hp)
  · rcases Waiting.promote_cases cfg.priority l hn c.id with ⟨hid, hw⟩ | ⟨l₁, x, l₂, rfl, hx, hw⟩
    · rw [hw] at hy
      have hne : y.id ≠ c.id := fun he => hid (he ▸ List.mem_map_of_mem hy)
      rw [Set.mem_insert_iff, or_iff_right hne]
      exact h.priority hd y hy
    · have hperm : (l₁ ++ x :: l₂).Perm (x :: (l₁ ++ l₂)) := List.perm_middle
      have hnx := (hperm.map Item.id).nodup_iff.1 hn
      rw [List.map_cons, List.nodup_cons] at hnx
      rw [hw, hd, if_pos rfl, (List.perm_orderedInsert _ _ _).mem_iff, List.mem_cons] at hy
      rcases hy with rfl | hy
      · exact iff_of_true rfl (Set.mem_insert_iff.2 (Or.inl hx))
      · have hne : y.id ≠ c.id := fun he => hnx.1 (by rw [hx, ← he]; exact List.mem_map_of_mem hy)
        rw [Set.mem_insert_iff, or_iff_right hne]
        exact h.priority hd y (hperm.mem_iff.2 (List.mem_cons_of_mem _ hy))
  · obtain ⟨x, hx, hid, hen⟩ := hback y hy
    change s.isCancelled y.entry.task = true
    rw [← hen]
    rcases Set.mem_insert_iff.1 hp with he | hp
    · unfold State.isCancelled
      rw [← h.contexts c hcm x hx (he.symm.trans hid.symm)]
      exact hc
    · exact h.promoted x hx (hid ▸ hp)
  · obtain ⟨x, hx, hid, -⟩ := hback y hy
    rw [Set.mem_insert_iff, not_or] at hp
    obtain ⟨c', hc', hid', hab'⟩ := h.watched x hx (hid ▸ hp.2)
    refine ⟨c', mem_eraseIdx_of_ne hk hc' fun he => hp.1 ?_, hid'.trans hid, hab'⟩
    rw [← hid, ← hid', he]
  · obtain ⟨x, hx, hid, hen⟩ := hback y hy
    rw [← hen]
    exact h.contexts c' (hsub c' hc') x hx (he.trans hid.symm)
  · obtain ⟨x, hx, hid, hen⟩ := hback y hy
    rw [← hen, ← hid]
    exact h.handles x hx
  · rcases Set.mem_insert_iff.1 hi with rfl | hi
    · exact h.ids.1 c hcm
    · exact h.ids.2 i hi

theorem Settled.perm {run run' : Run} (h : Settled run l) {l' : List (Item Entry)}
    (hp : (l'.map Item.link).Perm (l.map Item.link)) (hs : run'.started = run.started)
    (hr : run'.retiring = run.retiring) (ht : run'.target = run.target)
    (he : run'.executors = run.executors) (hi : run'.idle = run.idle) : Settled run' l' := by
  intro ha
  obtain ⟨h₁, h₂⟩ := h ⟨hs ▸ ha.1, hr ▸ ha.2⟩
  refine ⟨by rw [ht, he]; exact h₁, ?_⟩
  rcases h₂ with h₂ | rfl
  · exact Or.inl (hi.trans h₂)
  · exact Or.inr (List.map_eq_nil_iff.1 hp.eq_nil)

theorem Ordered.pollCancellations (h : Ordered cfg s l P) {k : Option ℕ} {d : Bool}
    (ha : s.actor = .select .cancellations d)
    (hs : QueuedPool.pollCancellations s k d = some t) : ∃ l' P', Ordered cfg t l' P' := by
  obtain ⟨hl, hd, hst⟩ := h.ok.selecting ha
  have hgoto : ∀ d', (d' = false → NoneReady s) →
      Ordered cfg { s with actor := .select .commands d' } l P := fun d' hn =>
    ⟨h.ok.poll ha _ _, h.front.frame rfl rfl (fun _ _ => rfl) (fun _ => id) rfl, h.settled,
      h.commands, h.calls, fun he => hn (Actor.select.inj he).2⟩
  unfold QueuedPool.pollCancellations at hs
  by_cases hdis : (d || s.run.cancellations.isEmpty) = true
  · rw [if_pos hdis] at hs
    split_ifs at hs
    cases hs
    refine ⟨l, P, hgoto d fun hf c hc => ?_⟩
    rw [hf, Bool.false_or, List.isEmpty_iff] at hdis
    rw [hdis] at hc
    cases hc
  rw [if_neg hdis] at hs
  cases k with
  | none =>
    simp only at hs
    split_ifs at hs with hany
    cases hs
    refine ⟨l, P, hgoto false fun _ c hc hab => ?_⟩
    rw [Bool.not_eq_true, List.any_eq_false] at hany
    have := hany c hc
    rw [ready, hab, Bool.false_or] at this
    simpa using this
  | some k =>
    simp only [bind, Option.bind_eq_some_iff] at hs
    obtain ⟨c, hk, hs⟩ := hs
    by_cases hab : c.aborted = true
    · rw [if_pos hab] at hs
      cases hs
      have hc := h.ok.core.queue h.ok.core.run.queue (List.Perm.refl _)
        (s.run.cancellations.eraseIdx k) s.run.workers
      have hf := h.front.dropAborted hk hab
      exact ⟨l, P, ⟨⟨hc.run, hc.workers, hc.adds⟩, hl, fun hc => absurd (hd.symm.trans hc) nofun,
        h.ok.stops⟩, hf.frame rfl rfl (fun _ _ => rfl) (fun _ => id) rfl, h.settled, h.commands,
        h.calls, nofun⟩
    · rw [if_neg hab] at hs
      split_ifs at hs with hcc
      cases hs
      obtain ⟨queue, hpr, hq⟩ := PendingQueue.promote_represents h.ok.core.run.queue c.id
      have hn := h.ok.core.run.queue.nodup
      have hp := Waiting.promote_perm cfg.priority l hn c.id
      have hc := h.ok.core.queue hq hp (s.run.cancellations.eraseIdx k) s.run.workers
      obtain ⟨t, l', ht, hord⟩ := Ordered.settle hc (h.front.promote hn hk hcc queue)
        (Or.inr (h.settled.perm hp rfl rfl rfl rfl rfl)) h.commands h.calls hl hd hst
      refine ⟨l', insert c.id P, ?_⟩
      simp only [hpr, Option.bind_some, ht]
      exact hord

/-! ## Receiving a command -/

/-- A new task goes behind the promoted ones, and is watched. -/
theorem Front.push (h : Front cfg s l P) {context task : ℕ} {priority : Int32}
    (hids : ∀ x ∈ l, x.id < s.run.nextId) (hctx : context = (s.adds task).context)
    (hp : cfg.priority = true → priority ≠ Int32.minValue) (queue : PendingQueue Entry)
    (channel : List Command) :
    Front cfg (State.reply { s with channel := channel, run := { s.run with
        nextId := s.run.nextId + 1
        cancellations := s.run.cancellations ++ [⟨s.run.nextId, context, false⟩]
        queue := queue } } task (.ok ()))
      (Waiting.push cfg.priority l ⟨s.run.nextId, priority, ⟨task, s.run.nextId⟩⟩) P := by
  have hmem : ∀ y, y ∈ Waiting.push cfg.priority l ⟨s.run.nextId, priority, ⟨task, s.run.nextId⟩⟩ ↔
      y = ⟨s.run.nextId, priority, ⟨task, s.run.nextId⟩⟩ ∨ y ∈ l := fun y => by
    rw [(Waiting.push_perm cfg.priority l _).mem_iff, List.mem_cons]
  have hnew : s.run.nextId ∉ P := fun hc => Nat.lt_irrefl _ (h.ids.2 _ hc)
  have hcontext : ∀ i, (Function.update s.adds task
      { s.adds task with reply := .sent (.ok ()) } i).context = (s.adds i).context := by
    intro i
    by_cases hi : i = task
    · subst hi
      rw [Function.update_self]
    · rw [Function.update_of_ne hi]
  refine ⟨fun hd => ?_, fun hd y hy => ?_, fun y hy hyp => ?_, fun y hy hyp => ?_,
    fun c hc y hy he => ?_, fun y hy => ?_, ⟨fun c hc => ?_, fun i hi => ?_⟩, h.dispatched⟩
  · rw [Waiting.push, hd, if_neg Bool.false_ne_true, List.pairwise_append]
    refine ⟨h.fifo hd, List.pairwise_singleton _ _, fun x _ y hy hc => ?_⟩
    rw [List.mem_singleton.1 hy] at hc
    exact absurd hc hnew
  · rcases (hmem y).1 hy with rfl | hy
    · exact iff_of_false (hp hd) hnew
    · exact h.priority hd y hy
  · rcases (hmem y).1 hy with rfl | hy
    · exact absurd hyp hnew
    · change s.cancelled (Function.update s.adds task _ _).context = true
      rw [hcontext]
      exact h.promoted y hy hyp
  · rcases (hmem y).1 hy with rfl | hy
    · exact ⟨_, List.mem_append_right _ (List.mem_singleton_self _), rfl, rfl⟩
    · obtain ⟨c, hc, hid⟩ := h.watched y hy hyp
      exact ⟨c, List.mem_append_left _ hc, hid⟩
  · change c.context = (Function.update s.adds task _ _).context
    rw [hcontext]
    rcases List.mem_append.1 hc with hc | hc
    · rcases (hmem y).1 hy with rfl | hy
      · exact absurd he (Nat.ne_of_lt (h.ids.1 c hc))
      · exact h.contexts c hc y hy he
    · obtain rfl := List.mem_singleton.1 hc
      rcases (hmem y).1 hy with rfl | hy
      · exact hctx
      · exact absurd he (Nat.ne_of_gt (hids y hy))
  · rcases (hmem y).1 hy with rfl | hy
    · rfl
    · exact h.handles y hy
  · change c.id < s.run.nextId + 1
    rcases List.mem_append.1 hc with hc | hc
    · exact Nat.lt_succ_of_lt (h.ids.1 c hc)
    · rw [List.mem_singleton.1 hc]
      exact Nat.lt_succ_self _
  · exact Nat.lt_succ_of_lt (h.ids.2 i hi)

/-- A reply changes neither contexts nor priorities. -/
theorem reply_calls (s : State) (task : ℕ) (r : RuntimeResult Unit) (i : ℕ) :
    ((s.reply task r).adds i).context = (s.adds i).context ∧
      ((s.reply task r).adds i).priority = (s.adds i).priority := by
  change (Function.update s.adds task _ i).context = _ ∧ (Function.update s.adds task _ i).priority = _
  by_cases hi : i = task
  · subst hi
    rw [Function.update_self]
    exact ⟨rfl, rfl⟩
  · rw [Function.update_of_ne hi]
    exact ⟨rfl, rfl⟩

/-- Handling a command keeps the order, as long as nothing is ready. -/
theorem Ordered.handle (h : Ordered cfg s l P) (hn : NoneReady s) {c : Command}
    {channel : List Command} (hc : s.channel = c :: channel) :
    ∃ t l', handle cfg { s with channel := channel } (some c) = some t ∧ Core cfg t l' ∧
      Front cfg t l' P ∧ NoneReady t ∧ (∀ c ∈ t.channel, c.Matches t.adds) ∧
      (∀ i, (t.adds i).priority = (s.adds i).priority) ∧ Calm s t := by
  have hcommands : ∀ c ∈ channel, c.Matches s.adds := fun c' hc' =>
    h.commands c' (hc ▸ List.mem_cons_of_mem _ hc')
  cases c with
  | add context priority task =>
    obtain ⟨hctx, hprio⟩ := h.commands _ (hc ▸ List.mem_cons_self)
    have hreject : ∀ e, Front cfg (State.reply { s with channel := channel } task (.error e)) l P :=
      fun e => h.front.frame rfl rfl
        (fun x _ => (reply_calls { s with channel := channel } task _ _).1) (fun _ => id) rfl
    have hmatch : ∀ r, ∀ c ∈ channel,
        c.Matches (State.reply { s with channel := channel } task r).adds := fun r c' hc' =>
      (hcommands c' hc').congr (reply_calls { s with channel := channel } task r)
    by_cases hs : s.run.stopped = true
    · exact ⟨_, l, if_pos hs, h.ok.core.reject hc _, hreject _, hn, hmatch _,
        fun i => (reply_calls { s with channel := channel } task _ i).2, ⟨rfl, rfl, rfl⟩⟩
    by_cases hx : s.cancelled context = true
    · exact ⟨_, l, (if_neg hs).trans (if_pos hx), h.ok.core.reject hc _, hreject _, hn, hmatch _,
        fun i => (reply_calls { s with channel := channel } task _ i).2, ⟨rfl, rfl, rfl⟩⟩
    obtain ⟨queue, hpush, hcore⟩ := h.ok.core.accept hc (by simpa using hs)
    have hfront := h.front.push h.ok.core.run.ids hctx
      (fun hp => hprio ▸ h.calls hp task) queue channel
    refine ⟨_, _, (if_neg hs).trans ((if_neg hx).trans ?_), hcore, hfront, fun c' hc' hab => ?_,
      hmatch _, fun i => (reply_calls { s with channel := channel } task _ i).2, ⟨rfl, rfl, rfl⟩⟩
    · simp only [bind, hpush, Option.bind_some]
    · rcases List.mem_append.1 hc' with hc' | hc'
      · exact hn c' hc' hab
      · rw [List.mem_singleton.1 hc']
        exact Bool.eq_false_iff.2 hx
  | start count =>
    by_cases hs : s.run.stopped = true
    · exact ⟨_, l, if_pos hs, h.ok.core.flags hc rfl nofun rfl id,
        h.front.frame rfl rfl (fun _ _ => rfl) (fun _ => id) rfl, hn, hcommands, fun _ => rfl,
        ⟨rfl, rfl, rfl⟩⟩
    · exact ⟨_, l, if_neg hs, h.ok.core.flags hc rfl nofun rfl id,
        h.front.frame rfl rfl (fun _ _ => rfl) (fun _ => id) rfl, hn, hcommands, fun _ => rfl,
        ⟨rfl, rfl, rfl⟩⟩
  | resize count =>
    by_cases hs : s.run.stopped = true
    · exact ⟨_, l, if_pos hs, h.ok.core.flags hc rfl nofun rfl id,
        h.front.frame rfl rfl (fun _ _ => rfl) (fun _ => id) rfl, hn, hcommands, fun _ => rfl,
        ⟨rfl, rfl, rfl⟩⟩
    · exact ⟨_, l, if_neg hs, h.ok.core.flags hc rfl nofun rfl id,
        h.front.frame rfl rfl (fun _ _ => rfl) (fun _ => id) rfl, hn, hcommands, fun _ => rfl,
        ⟨rfl, rfl, rfl⟩⟩
  | stop =>
    exact ⟨_, l, rfl, h.ok.core.flags hc rfl nofun rfl fun _ => rfl,
      h.front.frame rfl rfl (fun _ _ => rfl) (fun _ => id) rfl, hn, hcommands, fun _ => rfl,
      ⟨rfl, rfl, rfl⟩⟩
  | ready w =>
    obtain ⟨hb, hcore⟩ := h.ok.core.report hc
    exact ⟨_, l, if_neg hb, hcore, h.front.frame rfl rfl (fun _ _ => rfl) (fun _ => id) rfl, hn,
      hcommands, fun _ => rfl, ⟨rfl, rfl, rfl⟩⟩

theorem Ordered.recv (h : Ordered cfg s l P) {d : Bool} {c : Command} {channel : List Command}
    (ha : s.actor = .select .commands d) (hc : s.channel = c :: channel) (hn : NoneReady s) :
    ∃ l', Ordered cfg (orPanic { s with channel := channel }
      ((QueuedPool.handle cfg { s with channel := channel } (some c)).bind QueuedPool.settle))
      l' P := by
  obtain ⟨hl, hd, hst⟩ := h.ok.selecting ha
  obtain ⟨t, l₁, ht, hcore, hfront, hnt, hcommands, hcalls, hcalm⟩ := h.handle hn hc
  obtain ⟨u, l₂, hu, hord⟩ := Ordered.settle hcore hfront (Or.inl hnt) hcommands
    (fun hp i => by rw [hcalls]; exact h.calls hp i) (hcalm.launched.trans hl)
    (hcalm.drained.trans hd) (by rw [hcalm.stops]; exact hst)
  refine ⟨l₂, ?_⟩
  rw [ht, Option.bind_some, hu]
  exact hord

theorem Ordered.join (h : Ordered cfg s l P) {d : Bool} (ha : s.actor = .select .workers d) (w : ℕ) :
    ∃ l', Ordered cfg (orPanic { s with run := { s.run with workers := s.run.workers.erase w } }
      (QueuedPool.settle { s with run := { s.run with workers := s.run.workers.erase w } })) l' P := by
  obtain ⟨hl, hd, hst⟩ := h.ok.selecting ha
  have hc := h.ok.core.queue h.ok.core.run.queue (List.Perm.refl _) s.run.cancellations
    (s.run.workers.erase w)
  obtain ⟨t, l', ht, hord⟩ := Ordered.settle hc
    (h.front.frame rfl rfl (fun _ _ => rfl) (fun _ => id) rfl)
    (Or.inr (h.settled.perm (List.Perm.refl _) rfl rfl rfl rfl rfl)) h.commands h.calls hl hd hst
  refine ⟨l', ?_⟩
  rw [ht]
  exact hord

/-! ## Callers and workers -/

/-- What callers and workers do: none of it concerns the queue. -/
structure Quiet (s t : State) : Prop where
  run : t.run = s.run
  cancelled : t.cancelled = s.cancelled
  dispatched : t.dispatched = s.dispatched
  actor : t.actor = s.actor ∨ t.actor = .spawned
  calls : ∀ i, (t.adds i).context = (s.adds i).context ∧ (t.adds i).priority = (s.adds i).priority
  channel : ∀ c ∈ t.channel, c ∈ s.channel ∨ c.Matches s.adds

theorem Quiet.refl (s : State) : Quiet s s :=
  ⟨rfl, rfl, rfl, Or.inl rfl, fun _ => ⟨rfl, rfl⟩, fun _ hc => Or.inl hc⟩

theorem Quiet.launch (s : State) : Quiet s (launch s) := by
  unfold QueuedPool.launch
  split_ifs
  · exact Quiet.refl s
  · exact ⟨rfl, rfl, rfl, Or.inr rfl, fun _ => ⟨rfl, rfl⟩, fun _ hc => Or.inl hc⟩

theorem Quiet.send {c : Command} (hs : send s c = some t) (hc : c.Matches s.adds) : Quiet s t := by
  obtain ⟨-, rfl⟩ := send_eq_some hs
  refine ⟨rfl, rfl, rfl, Or.inl rfl, fun _ => ⟨rfl, rfl⟩, fun c' hc' => ?_⟩
  rcases List.mem_append.1 hc' with hc' | hc'
  · exact Or.inl hc'
  · rw [List.mem_singleton.1 hc']
    exact Or.inr hc

theorem Quiet.setAdd (h : Quiet s t) {i : ℕ} {c : AddCall} (hc : c.context = (s.adds i).context)
    (hp : c.priority = (s.adds i).priority) : Quiet s (t.setAdd i c) := by
  refine ⟨h.run, h.cancelled, h.dispatched, h.actor, fun j => ?_, h.channel⟩
  change (Function.update t.adds i c j).context = _ ∧ (Function.update t.adds i c j).priority = _
  by_cases hj : j = i
  · subst hj
    rw [Function.update_self]
    exact ⟨hc, hp⟩
  · rw [Function.update_of_ne hj]
    exact h.calls j

theorem stepAdd_quiet {i : ℕ} (hs : stepAdd cfg s i = some t) : Quiet s t := by
  unfold stepAdd at hs
  cases hpc : (s.adds i).pc <;> simp only [hpc, reduceCtorEq] at hs
  case called | checked =>
    split_ifs at hs <;> cases hs <;> exact (Quiet.refl s).setAdd rfl rfl
  case loaded =>
    cases hs
    exact (Quiet.launch s).setAdd rfl rfl
  case launched =>
    cases hsend : send s (.add (s.adds i).context (s.adds i).priority i) with
    | some u =>
      rw [hsend] at hs
      cases hs
      exact (Quiet.send hsend ⟨rfl, rfl⟩).setAdd rfl rfl
    | none =>
      rw [hsend] at hs
      cases hs
      exact (Quiet.refl s).setAdd rfl rfl
  case waiting =>
    cases hr : (s.adds i).reply <;> simp only [hr, reduceCtorEq, Option.some.injEq] at hs
    case sent | closed =>
      subst hs
      exact (Quiet.refl s).setAdd rfl rfl

theorem Quiet.others (h : Quiet s t) (state : Lifecycle) (starts : ℕ → StartPc) (stops : ℕ → StopPc)
    (workers : ℕ → Worker) (finished : List (ℕ × ℕ)) :
    Quiet s { t with state := state, starts := starts, stops := stops, workers := workers,
                     finished := finished } :=
  ⟨h.run, h.cancelled, h.dispatched, h.actor, h.calls, h.channel⟩

theorem stepStart_quiet {i : ℕ} {configured : Option ℕ}
    (hs : stepStart cfg s i configured = some t) : Quiet s t := by
  unfold stepStart at hs
  cases hpc : s.starts i <;> simp only [hpc, reduceCtorEq] at hs
  case called =>
    cases hst : s.state <;> simp only [hst, Option.some.injEq] at hs <;> subst hs <;>
      exact (Quiet.refl s).others _ _ _ _ _
  case claimed =>
    cases hs
    exact (Quiet.launch s).others _ _ _ _ _
  case launched =>
    cases hsend : send s (.start (executors cfg configured)) with
    | some u =>
      simp only [hsend, Option.some.injEq] at hs
      subst hs
      exact (Quiet.send hsend trivial).others _ _ _ _ _
    | none =>
      simp only [hsend, Option.some.injEq] at hs
      subst hs
      exact (Quiet.refl s).others _ _ _ _ _

theorem stepStop_quiet {i : ℕ} (hs : stepStop s i = some t) : Quiet s t := by
  unfold stepStop at hs
  cases hpc : s.stops i <;> simp only [hpc, reduceCtorEq] at hs
  case called =>
    cases hs
    exact (Quiet.launch s).others _ _ _ _ _
  case launched =>
    cases hs
    exact (Quiet.refl s).others _ _ _ _ _
  case sending =>
    cases hs
    cases hsend : send s .stop with
    | some u => exact (Quiet.send hsend trivial).others _ _ _ _ _
    | none => exact (Quiet.refl s).others _ _ _ _ _
  case waiting =>
    split_ifs at hs
    cases hs
    exact (Quiet.refl s).others _ _ _ _ _

theorem stepWorker_quiet {w : ℕ} (hs : stepWorker s w = some t) : Quiet s t := by
  unfold stepWorker at hs
  cases hpc : (s.workers w).pc <;> simp only [hpc, reduceCtorEq] at hs
  case receiving =>
    cases hin : (s.workers w).inbox with
    | nil =>
      simp only [hin] at hs
      split_ifs at hs
      cases hs
      exact (Quiet.refl s).others _ _ _ _ _
    | cons task inbox =>
      simp only [hin, Option.some.injEq] at hs
      subst hs
      exact (Quiet.refl s).others _ _ _ _ _
  case running =>
    cases hs
    exact (Quiet.refl s).others _ _ _ _ _
  case reporting =>
    cases hsend : send s (.ready w) with
    | some u =>
      simp only [hsend, Option.some.injEq] at hs
      subst hs
      exact (Quiet.send hsend trivial).others _ _ _ _ _
    | none =>
      simp only [hsend, Option.some.injEq] at hs
      subst hs
      exact (Quiet.refl s).others _ _ _ _ _

theorem Ordered.quiet (h : Ordered cfg s l P) (hok : Ok cfg t l) (hq : Quiet s t) :
    Ordered cfg t l P := by
  refine ⟨hok, h.front.frame (by rw [hq.run]) (by rw [hq.run]) (fun x _ => (hq.calls _).1)
    (fun c hc => by rw [hq.cancelled]; exact hc) hq.dispatched, by rw [hq.run]; exact h.settled,
    fun c hc => ?_, fun hp i => by rw [(hq.calls i).2]; exact h.calls hp i, fun ha => ?_⟩
  · refine Command.Matches.congr ?_ hq.calls
    rcases hq.channel c hc with hc | hc
    · exact h.commands c hc
    · exact hc
  · unfold NoneReady
    rw [hq.run, hq.cancelled]
    refine h.polled ?_
    rcases hq.actor with he | he
    · exact he ▸ ha
    · rw [he] at ha
      cases ha

/-! ## Every timely run -/

theorem Ordered.addTask (h : Ordered cfg s l P) {i context : ℕ} {priority : Int32}
    (hpc : (s.adds i).pc = .idle) (hp : cfg.priority = true → priority ≠ Int32.minValue) :
    Ordered cfg (s.setAdd i ⟨.called, context, priority, .pending⟩) l P := by
  have hcall := h.ok.core.adds.call i
  rw [CallOk, hpc] at hcall
  have hother : ∀ j ≠ i, (s.setAdd i ⟨.called, context, priority, .pending⟩).adds j = s.adds j :=
    fun j hj => Function.update_of_ne hj _ _
  refine ⟨h.ok.gotoAdd hcall.1.symm ⟨rfl, hcall.2⟩,
    h.front.frame rfl rfl (fun x hx => ?_) (fun _ => id) rfl, h.settled, fun c hc => ?_,
    fun hpr j => ?_, h.polled⟩
  · -- a queued task was accepted, so it is not the new one
    have hacc := (h.ok.core.adds.accepted x.entry.task).1
      (List.mem_append_left _ (List.mem_map_of_mem hx))
    rw [hother]
    intro he
    rw [he, hcall.1] at hacc
    cases hacc
  · have hm := h.commands c hc
    cases c with
    | add context' priority' task =>
      have hne : task ≠ i := fun he =>
        hcall.2 (List.mem_filterMap.2 ⟨_, hc, by rw [← he]; rfl⟩)
      change _ = ((s.setAdd i _).adds task).context ∧ _ = ((s.setAdd i _).adds task).priority
      rw [hother task hne]
      exact hm
    | start _ | resize _ | stop | ready _ => trivial
  · by_cases hj : j = i
    · subst hj
      change (Function.update s.adds j _ j).priority ≠ _
      rw [Function.update_self]
      exact hp hpr
    · rw [hother j hj]
      exact h.calls hpr j

/-- **One timely step.** -/
theorem Ordered.step (h : Ordered cfg s l P) {a : Action} (hok : Timely cfg s a)
    (hs : step cfg s a = some t) : ∃ l' P', Ordered cfg t l' P' := by
  have hpoll : ∀ {b d} (b' : Branch), s.actor = .select b d → b' ≠ .commands →
      ∀ d', Ordered cfg { s with actor := .select b' d' } l P := fun b' ha hb d' =>
    ⟨h.ok.poll ha _ _, h.front.frame rfl rfl (fun _ _ => rfl) (fun _ => id) rfl, h.settled,
      h.commands, h.calls, fun he => absurd (Actor.select.inj he).1 hb⟩
  cases a with
  | cancel c =>
    cases hs
    have hcan : ∀ c', s.cancelled c' = true → Function.update s.cancelled c true c' = true := by
      intro c' hc'
      by_cases he : c' = c
      · subst he
        rw [Function.update_self]
      · rw [Function.update_of_ne he]
        exact hc'
    refine ⟨l, P, ⟨⟨h.ok.core.run, h.ok.core.workers, h.ok.core.adds⟩, h.ok.actor, h.ok.drained,
      h.ok.stops⟩, h.front.frame rfl rfl (fun _ _ => rfl) hcan rfl, h.settled, h.commands, h.calls,
      fun ha c' hc' hab => ?_⟩
    change Function.update s.cancelled c true c'.context = false
    rw [Function.update_of_ne (hok ha c' hc' hab)]
    exact h.polled ha c' hc' hab
  | addTask i context priority =>
    simp only [QueuedPool.step] at hs
    split_ifs at hs with hpc
    cases hs
    exact ⟨l, P, h.addTask hpc hok⟩
  | stepAdd i => exact ⟨l, P, h.quiet (h.ok.stepAdd hs) (stepAdd_quiet hs)⟩
  | dropAdd i =>
    simp only [QueuedPool.step] at hs
    split_ifs at hs with hpc
    cases hs
    exact ⟨l, P, h.quiet (h.ok.gotoAdd rfl trivial) ((Quiet.refl s).setAdd rfl rfl)⟩
  | start i =>
    simp only [QueuedPool.step] at hs
    split_ifs at hs
    cases hs
    exact ⟨l, P, h.quiet (h.ok.setStart _ _) ((Quiet.refl s).others _ _ _ _ _)⟩
  | stepStart i configured => exact ⟨l, P, h.quiet (h.ok.stepStart hs) (stepStart_quiet hs)⟩
  | reloadConfig configured =>
    simp only [QueuedPool.step, Option.some.injEq] at hs
    subst hs
    cases hsend : QueuedPool.send s (.resize (executors cfg configured)) with
    | some u => exact ⟨l, P, h.quiet (h.ok.send hsend rfl (by simp)) (Quiet.send hsend trivial)⟩
    | none => exact ⟨l, P, h⟩
  | stop i =>
    simp only [QueuedPool.step] at hs
    split_ifs at hs
    cases hs
    exact ⟨l, P, h.quiet (h.ok.setStop s.state (by simp)) ((Quiet.refl s).others _ _ _ _ _)⟩
  | stepStop i => exact ⟨l, P, h.quiet (h.ok.stepStop hs) (stepStop_quiet hs)⟩
  | dropStop i =>
    simp only [QueuedPool.step] at hs
    split_ifs at hs
    cases hs
    exact ⟨l, P, h.quiet (h.ok.setStop s.state (by simp)) ((Quiet.refl s).others _ _ _ _ _)⟩
  | enterRun configured =>
    simp only [QueuedPool.step] at hs
    split_ifs at hs with ha
    cases hs
    have hact := h.ok.actor
    rw [ActorOk, ha] at hact
    obtain ⟨-, target, hrun⟩ := hact
    refine ⟨l, P, h.ok.enterRun ha _,
      h.front.frame (by rw [hrun]; rfl) (by rw [hrun]; rfl) (fun _ _ => rfl) (fun _ => id) rfl,
      fun hact => ?_, h.commands, h.calls, (by simp)⟩
    cases hact.1
  | pollCancellations k =>
    simp only [QueuedPool.step] at hs
    split at hs
    · next d ha => exact h.pollCancellations ha hs
    · cases hs
  | recv =>
    simp only [QueuedPool.step] at hs
    split at hs
    · next d c channel ha hc =>
      split_ifs at hs
      cases hs
      have hn : NoneReady s := by
        cases d with
        | false => exact h.polled ha
        | true => exact hok ha
      obtain ⟨l', hord⟩ := h.recv ha hc hn
      exact ⟨l', P, hord⟩
    · cases hs
  | recvPending =>
    simp only [QueuedPool.step] at hs
    split at hs
    · next d ha =>
      cases hs
      exact ⟨l, P, hpoll .workers ha (by simp) _⟩
    · cases hs
  | join w =>
    simp only [QueuedPool.step] at hs
    split at hs
    · next d ha =>
      split_ifs at hs
      cases hs
      obtain ⟨l', hord⟩ := h.join ha w
      exact ⟨l', P, hord⟩
    · cases hs
  | joinPending =>
    simp only [QueuedPool.step] at hs
    split at hs
    · next d ha =>
      cases hs
      exact ⟨l, P, hpoll .cancellations ha (by simp) _⟩
    · cases hs
  | publishDrained =>
    simp only [QueuedPool.step] at hs
    split_ifs at hs with ha
    cases hs
    exact ⟨l, P, h.ok.publishDrained ha, h.front.frame rfl rfl (fun _ _ => rfl) (fun _ => id) rfl,
      h.settled, h.commands, h.calls, (by simp)⟩
  | stepWorker w => exact ⟨l, P, h.quiet (h.ok.stepWorker hs) (stepWorker_quiet hs)⟩

/-- **Cancelled tasks are dispatched first.** In every run whose steps are all timely, a task that is
popped for an executor while the context of some queued task had been cancelled before the command
that led to the pop was received is itself one whose context was cancelled. -/
theorem cancelled_first (h : (system cfg).Reach (Timely cfg) s) :
    ∀ d ∈ s.dispatched, d.cancelledQueued = true → d.cancelled = true := by
  have hord : ∃ l P, Ordered cfg s l P :=
    System.Reach.invariant (I := fun s => ∃ l P, Ordered cfg s l P) ⟨[], ∅, ordered_init cfg⟩
      (fun _ _ _ ⟨_, _, hi⟩ hok hs => hi.step hok hs) h
  obtain ⟨l, P, hord⟩ := hord
  exact hord.front.dispatched

instance (cfg : Config) (s : State) : ∀ a, Decidable (Timely cfg s a)
  | .recv => inferInstanceAs (Decidable (_ → NoneReady s))
  | .cancel _ => inferInstanceAs (Decidable (_ → ∀ c ∈ s.run.cancellations, _ → _))
  | .addTask _ _ priority =>
    inferInstanceAs (Decidable (cfg.priority = true → priority ≠ Int32.minValue))
  | .stepAdd _ | .dropAdd _ | .start _ | .stepStart _ _ | .reloadConfig _ | .stop _ | .stepStop _
  | .dropStop _ | .enterRun _ | .pollCancellations _ | .recvPending | .join _ | .joinPending
  | .publishDrained | .stepWorker _ => inferInstanceAs (Decidable True)

/-- An `add_task` call up to the wait for its reply. -/
def addCall (i : ℕ) : List Action :=
  [.addTask i i 0, .stepAdd i, .stepAdd i, .stepAdd i, .stepAdd i]

/-- Three tasks are queued, the pool is started, and the first task runs. -/
def threeQueued : List Action :=
  addCall 0 ++ addCall 1 ++ addCall 2 ++
    [.enterRun none, .pollCancellations none, .recv, .pollCancellations none, .recv,
      .pollCancellations none, .recv, .start 0, .stepStart 0 none, .stepStart 0 none,
      .stepStart 0 none, .pollCancellations none, .recv, .stepWorker 0, .stepWorker 0]

/-- The third task is cancelled while no aborted entry is left, and overtakes the second. -/
def overtaking : List Action :=
  threeQueued ++ [.pollCancellations (some 0), .reloadConfig none, .recv, .cancel 2,
    .pollCancellations (some 1), .stepWorker 0, .pollCancellations none, .recv]

theorem overtaking_runs :
    (((system samplePool).restrict (Timely samplePool)).run (.init samplePool) overtaking).isSome := by
  decide +kernel

theorem cancelled_first_overtaking :
    ∃ s, (system samplePool).Reach (Timely samplePool) s ∧
      ∃ d ∈ s.dispatched, d.task = 2 ∧ d.cancelledQueued = true ∧ d.cancelled = true := by
  have h := (System.reachable_get overtaking_runs).reach
  have hd : (⟨2, 0, true, true⟩ : Dispatch) ∈ ((((system samplePool).restrict
      (Timely samplePool)).run (.init samplePool) overtaking).get overtaking_runs).dispatched := by
    decide +kernel
  exact ⟨_, h, _, hd, rfl, rfl, cancelled_first h _ hd rfl⟩

/-- The entry that the dispatch of the first task has aborted is polled, and then the third task is
cancelled: in the same `select!` call the report of the executor is received. -/
def overtaken : List Action :=
  threeQueued ++ [.pollCancellations (some 0), .recvPending, .joinPending, .cancel 2,
    .pollCancellations none, .stepWorker 0, .recv]

theorem overtaken_runs :
    ((system samplePool).run (.init samplePool) overtaken).isSome := by
  decide +kernel

/-- The second task is dispatched although the third was cancelled long before. -/
theorem stale_abort_dispatch :
    ∃ s, (system samplePool).Reachable s ∧
      ∃ d ∈ s.dispatched, d.task = 1 ∧ d.cancelledQueued = true ∧ d.cancelled = false := by
  refine ⟨_, System.reachable_get overtaken_runs, ⟨1, 0, false, true⟩, ?_, rfl, rfl, rfl⟩
  decide +kernel

end QueuedPool

end ServiceLib
