import ServiceLib.Decoder

/-!
# Runs that leave a trace

The mathematical reading of a decoder says what it returns. A machine run of it also does things
that the result does not show, such as asking for memory, and it may die where the mathematical
reading cannot. `Traced` is such a run: a log of events and an outcome that is a value, an error or
a panic.

`Follows run x p` connects the two readings: the run ends as `x` does unless it dies of a tolerated
panic, and it is clean (no panic, only good events) exactly if `p`. `Realises` says the same of a
machine decoder and a `Decoder` at every cursor. Both are closed under sequencing and repetition,
so a decoder is verified by following its text.
-/

namespace ServiceLib

/-- How a machine run ends. -/
inductive Outcome (ε P α : Type) where
  | ok (a : α)
  | err (e : ε)
  | panic (p : P)

/-- A result without panics. -/
def Outcome.ofExcept {ε P α : Type} : Except ε α → Outcome ε P α
  | .ok a => .ok a
  | .error e => .err e

/-- A run with the events it has logged. -/
structure Traced (E ε P α : Type) where
  log : List E
  outcome : Outcome ε P α

namespace Traced

variable {E ε P α β : Type}

instance : Monad (Traced E ε P) where
  pure a := ⟨[], .ok a⟩
  bind run k :=
    match run.outcome with
    | .ok a => ⟨run.log ++ (k a).log, (k a).outcome⟩
    | .err e => ⟨run.log, .err e⟩
    | .panic p => ⟨run.log, .panic p⟩

/-- The run that does nothing but end. -/
def halt (o : Outcome ε P α) : Traced E ε P α := ⟨[], o⟩

/-- The run that logs one event. -/
def emit (e : E) : Traced E ε P Unit := ⟨[e], .ok ()⟩

theorem bind_of_ok {run : Traced E ε P α} {k : α → Traced E ε P β} {a : α}
    (h : run.outcome = .ok a) : (run >>= k) = ⟨run.log ++ (k a).log, (k a).outcome⟩ := by
  simp only [bind, h]

theorem bind_of_err {run : Traced E ε P α} {k : α → Traced E ε P β} {e : ε}
    (h : run.outcome = .err e) : (run >>= k) = ⟨run.log, .err e⟩ := by
  simp only [bind, h]

theorem bind_of_panic {run : Traced E ε P α} {k : α → Traced E ε P β} {p : P}
    (h : run.outcome = .panic p) : (run >>= k) = ⟨run.log, .panic p⟩ := by
  simp only [bind, h]

theorem bind_assoc_run {γ : Type} (run : Traced E ε P α) (f : α → Traced E ε P β)
    (g : β → Traced E ε P γ) : (run >>= f >>= g) = run >>= fun a => f a >>= g := by
  cases hrun : run.outcome with
  | ok a =>
    rw [bind_of_ok hrun, bind_of_ok (k := fun a => f a >>= g) hrun]
    cases hf : (f a).outcome with
    | ok b =>
      rw [bind_of_ok hf, bind_of_ok (a := b) rfl]
      simp only [List.append_assoc]
    | err e => rw [bind_of_err hf, bind_of_err (e := e) rfl]
    | panic p => rw [bind_of_panic hf, bind_of_panic (p := p) rfl]
  | err e =>
    rw [bind_of_err hrun, bind_of_err (e := e) rfl, bind_of_err hrun]
  | panic p =>
    rw [bind_of_panic hrun, bind_of_panic (p := p) rfl, bind_of_panic hrun]

theorem map_id_run (run : Traced E ε P α) : id <$> run = run := by
  obtain ⟨log, outcome⟩ := run
  cases outcome with
  | ok a => simp [Functor.map]
  | err e => rfl
  | panic p => rfl

instance : LawfulMonad (Traced E ε P) :=
  LawfulMonad.mk' (Traced E ε P) map_id_run (fun _ _ => rfl) bind_assoc_run

/-! ## Clean runs -/

/-- No panic, and only good events. -/
structure Clean (Good : E → Prop) (run : Traced E ε P α) : Prop where
  no_panic : ∀ p, run.outcome ≠ .panic p
  good : ∀ e ∈ run.log, Good e

/-- The run ends as `x` does, unless it dies of a tolerated panic; it is clean exactly if `p`. -/
structure Follows (Good : E → Prop) (Tolerated : P → Prop) (run : Traced E ε P α)
    (x : Except ε α) (p : Prop) : Prop where
  agrees : run.outcome = .ofExcept x ∨ ∃ t, Tolerated t ∧ run.outcome = .panic t
  clean_iff : run.Clean Good ↔ p

section Follows

variable {Good : E → Prop} {Tolerated : P → Prop}

theorem clean_halt {o : Outcome ε P α} (h : ∀ p, o ≠ .panic p) :
    (halt o : Traced E ε P α).Clean Good where
  no_panic := h
  good := fun _ he => absurd he List.not_mem_nil

theorem Follows.pure (a : α) :
    Follows Good Tolerated (Pure.pure a : Traced E ε P α) (.ok a) True where
  agrees := Or.inl rfl
  clean_iff := iff_of_true (clean_halt fun _ h => by cases h) trivial

theorem Follows.err (e : ε) :
    Follows Good Tolerated (halt (.err e) : Traced E ε P α) (.error e) True where
  agrees := Or.inl rfl
  clean_iff := iff_of_true (clean_halt fun _ h => by cases h) trivial

theorem Follows.congr {run : Traced E ε P α} {x : Except ε α} {p q : Prop}
    (h : Follows Good Tolerated run x p) (hpq : p ↔ q) : Follows Good Tolerated run x q :=
  ⟨h.agrees, h.clean_iff.trans hpq⟩

/-- A run after another: the second part starts only if the first ends well. -/
theorem Follows.bind {run : Traced E ε P α} {x : Except ε α} {p : Prop}
    {k : α → Traced E ε P β} {l : α → Except ε β} {q : α → Prop}
    (h : Follows Good Tolerated run x p)
    (hk : ∀ a, x = .ok a → Follows Good Tolerated (k a) (l a) (q a)) :
    Follows Good Tolerated (run >>= k) (x >>= l) (p ∧ ∀ a, x = .ok a → q a) := by
  rcases h.agrees with hag | ⟨t, ht, hpanic⟩
  · cases x with
    | error e =>
      have hrun : (run >>= k) = ⟨run.log, .err e⟩ := bind_of_err hag
      refine ⟨Or.inl (by rw [hrun]; rfl), ?_⟩
      have hclean : (run >>= k).Clean Good ↔ run.Clean Good := by
        rw [hrun]
        refine ⟨fun hc => ⟨?_, hc.good⟩, fun hc => ⟨?_, hc.good⟩⟩
        · intro p hp
          rw [hag] at hp
          cases hp
        · intro p hp
          cases hp
      rw [hclean, h.clean_iff]
      exact ⟨fun hp => ⟨hp, fun a ha => by cases ha⟩, And.left⟩
    | ok a =>
      have hrun : (run >>= k) = ⟨run.log ++ (k a).log, (k a).outcome⟩ := bind_of_ok hag
      have hka := hk a rfl
      refine ⟨by rw [hrun]; exact hka.agrees, ?_⟩
      have hclean : (run >>= k).Clean Good ↔ run.Clean Good ∧ (k a).Clean Good := by
        rw [hrun]
        constructor
        · intro hc
          refine ⟨⟨?_, fun e he => hc.good e (List.mem_append_left _ he)⟩,
            ⟨hc.no_panic, fun e he => hc.good e (List.mem_append_right _ he)⟩⟩
          intro p hp
          rw [hag] at hp
          cases hp
        · rintro ⟨hc, hc'⟩
          refine ⟨hc'.no_panic, fun e he => ?_⟩
          rcases List.mem_append.1 he with he | he
          · exact hc.good e he
          · exact hc'.good e he
      rw [hclean, h.clean_iff, hka.clean_iff]
      refine and_congr_right fun _ => ⟨fun hq a' ha' => ?_, fun hq => hq a rfl⟩
      cases ha'
      exact hq
  · have hrun : (run >>= k) = ⟨run.log, .panic t⟩ := bind_of_panic hpanic
    refine ⟨Or.inr ⟨t, ht, by rw [hrun]⟩, ?_⟩
    have hfalse : ¬ p := fun hp => (h.clean_iff.2 hp).no_panic t hpanic
    refine iff_of_false (fun hc => ?_) fun hp => hfalse hp.1
    rw [hrun] at hc
    exact hc.no_panic t rfl

end Follows

end Traced

/-! ## Machine decoders -/

/-- The cursor stands inside an input of at most `maxLen` bytes. -/
structure Cursor.Valid (maxLen : ℕ) (c : Cursor) : Prop where
  offset_le : c.offset ≤ c.data.length
  length_le : c.data.length ≤ maxLen

namespace Traced

variable {E ε P α β : Type}

/-- At every valid cursor, `m` follows `d` and is clean exactly if `q`; and `d` keeps to the
input. -/
structure Realises (maxLen : ℕ) (Good : E → Prop) (Tolerated : P → Prop)
    (m : StateT Cursor (Traced E ε P) α) (d : Decoder ε α) (q : Cursor → Prop) : Prop where
  follows : ∀ c, c.Valid maxLen → Follows Good Tolerated (m c) (d c) (q c)
  stays : ∀ c v c', c.Valid maxLen → d c = .ok (v, c') → c'.Valid maxLen ∧ c'.data = c.data

/-- `for _ in 0..n { result.push(m?) }` -/
def times (m : StateT Cursor (Traced E ε P) α) : ℕ → StateT Cursor (Traced E ε P) (List α)
  | 0 => Pure.pure []
  | n + 1 => do
    let v ← m
    let vs ← times m n
    Pure.pure (v :: vs)

/-- `q` holds wherever one of `n` repetitions of `d` starts. -/
def Every (d : Decoder ε α) (q : Cursor → Prop) : ℕ → Cursor → Prop
  | 0, _ => True
  | n + 1, c => q c ∧ ∀ v c', d c = .ok (v, c') → Every d q n c'

section Realises

variable {maxLen : ℕ} {Good : E → Prop} {Tolerated : P → Prop}
  {m : StateT Cursor (Traced E ε P) α} {d : Decoder ε α} {q : Cursor → Prop}

theorem Realises.congr (h : Realises maxLen Good Tolerated m d q) {q' : Cursor → Prop}
    (hq : ∀ c, c.Valid maxLen → (q c ↔ q' c)) : Realises maxLen Good Tolerated m d q' :=
  ⟨fun c hc => (h.follows c hc).congr (hq c hc), h.stays⟩

theorem Realises.pure (v : α) :
    Realises maxLen Good Tolerated (Pure.pure v) (Pure.pure v : Decoder ε α) fun _ => True where
  follows := fun c _ => Follows.pure (v, c)
  stays := by
    intro c w c' hc h
    cases h
    exact ⟨hc, rfl⟩

theorem Realises.err (e : ε) :
    Realises maxLen Good Tolerated (fun _ => halt (.err e)) (throw e : Decoder ε α)
      fun _ => True where
  follows := fun c _ => Follows.err e
  stays := by
    intro c w c' hc h
    cases h

/-- One decoder after another; the second is only entered with a value the first can return. -/
theorem Realises.bind {k : α → StateT Cursor (Traced E ε P) β} {l : α → Decoder ε β}
    {r : α → Cursor → Prop} (h : Realises maxLen Good Tolerated m d q)
    (hk : ∀ v c c', c.Valid maxLen → d c = .ok (v, c') →
      Realises maxLen Good Tolerated (k v) (l v) (r v)) :
    Realises maxLen Good Tolerated (m >>= k) (d >>= l)
      fun c => q c ∧ ∀ v c', d c = .ok (v, c') → r v c' where
  follows := by
    intro c hc
    refine (Follows.bind (k := fun o => k o.1 o.2) (l := fun o => l o.1 o.2)
      (q := fun o => r o.1 o.2) (h.follows c hc) ?_).congr ?_
    · intro o ho
      exact (hk o.1 c o.2 hc ho).follows o.2 (h.stays c o.1 o.2 hc ho).1
    · exact and_congr_right fun _ => Prod.forall
  stays := by
    intro c w c' hc hrun
    obtain ⟨⟨v, c₁⟩, hd, hl⟩ := Decoder.bind_eq_ok.1 hrun
    obtain ⟨hc₁, hdata₁⟩ := h.stays c v c₁ hc hd
    obtain ⟨hc', hdata'⟩ := (hk v c c₁ hc hd).stays c₁ w c' hc₁ hl
    exact ⟨hc', hdata'.trans hdata₁⟩

/-- Two decoders that always go well. -/
theorem Realises.bind_true {k : α → StateT Cursor (Traced E ε P) β} {l : α → Decoder ε β}
    (h : Realises maxLen Good Tolerated m d fun _ => True)
    (hk : ∀ v c c', c.Valid maxLen → d c = .ok (v, c') →
      Realises maxLen Good Tolerated (k v) (l v) fun _ => True) :
    Realises maxLen Good Tolerated (m >>= k) (d >>= l) fun _ => True :=
  (h.bind hk).congr fun _ _ => iff_of_true ⟨trivial, fun _ _ _ => trivial⟩ trivial

/-- Looking at the cursor. -/
theorem Realises.get {k : Cursor → StateT Cursor (Traced E ε P) α} {k' : Cursor → Decoder ε α}
    {q : Cursor → Cursor → Prop}
    (hk : ∀ c, c.Valid maxLen → Realises maxLen Good Tolerated (k c) (k' c) (q c)) :
    Realises maxLen Good Tolerated (MonadState.get >>= k) (MonadState.get >>= k')
      fun c => q c c where
  follows := fun c hc => (hk c hc).follows c hc
  stays := fun c v c' hc h => (hk c hc).stays c v c' hc h

/-- A run on the side, between two reads. -/
theorem Realises.lift {run : Traced E ε P α} {x : Except ε α} {p : Prop}
    (h : Follows Good Tolerated run x p) :
    Realises maxLen Good Tolerated (liftM run) (liftM x : Decoder ε α) fun _ => p where
  follows := by
    intro c _
    refine (h.bind (k := fun a => Pure.pure (a, c)) (l := fun a => .ok (a, c))
      (q := fun _ => True) fun a _ => Follows.pure (a, c)).congr ?_
    simp only [implies_true, and_true]
  stays := by
    intro c v c' hc hrun
    cases x with
    | error e => cases hrun
    | ok a =>
      cases hrun
      exact ⟨hc, rfl⟩

theorem Realises.times (h : Realises maxLen Good Tolerated m d q) (n : ℕ) :
    Realises maxLen Good Tolerated (times m n) (d.times n) (Every d q n) := by
  induction n with
  | zero => exact Realises.pure []
  | succ n ih =>
    refine (h.bind fun v _ _ _ _ => ih.bind fun vs _ _ _ _ =>
      Realises.pure (v :: vs)).congr fun c _ => ?_
    simp only [Every, implies_true, and_true]

/-! ## The pieces of an input -/

variable {wrap : Bytes → Bytes} {Shape Accepted J : Bytes → Prop}

/-- The repetitions of a decoder that reads one wrapped piece at a time: `q` holds wherever one
starts exactly if `J` holds of every piece that comes after fewer than `n` accepted ones. -/
theorem every_iff_pieces
    (hd : ∀ c c', c.Valid maxLen → ((∃ v, d c = .ok (v, c')) ↔ ∃ p rest,
      c.data.drop c.offset = wrap p ++ rest ∧ Shape p ∧ Accepted p ∧
        c' = ⟨c.data, c.offset + (wrap p).length⟩))
    (hq : ∀ c, c.Valid maxLen → (q c ↔
      ∀ p rest, c.data.drop c.offset = wrap p ++ rest → Shape p → J p))
    (n : ℕ) (c : Cursor) (hc : c.Valid maxLen) :
    Every d q n c ↔ ∀ (pre : List Bytes) (p rest : Bytes),
      c.data.drop c.offset = (pre.map wrap).flatten ++ wrap p ++ rest → pre.length < n →
        (∀ p' ∈ pre, Shape p' ∧ Accepted p') → Shape p → J p := by
  induction n generalizing c with
  | zero => exact iff_of_true trivial fun _ _ _ _ h => absurd h (Nat.not_lt_zero _)
  | succ n ih =>
    -- Past one accepted piece the cursor is still valid and the rest of the input is dropped.
    have hnext : ∀ p rest, c.data.drop c.offset = wrap p ++ rest →
        Cursor.Valid maxLen ⟨c.data, c.offset + (wrap p).length⟩ ∧
          c.data.drop (c.offset + (wrap p).length) = rest := by
      intro p rest hsplit
      have hlen := congrArg List.length hsplit
      rw [List.length_drop, List.length_append] at hlen
      have hoff := hc.offset_le
      refine ⟨⟨by simp only; omega, hc.length_le⟩, ?_⟩
      rw [← List.drop_drop, hsplit, List.drop_left]
    constructor
    · rintro ⟨hhere, hrest⟩ pre p rest hsplit hlen hpre hshape
      cases pre with
      | nil =>
        rw [List.map_nil, List.flatten_nil, List.nil_append] at hsplit
        exact (hq c hc).1 hhere p rest hsplit hshape
      | cons p₀ pre =>
        rw [List.map_cons, List.flatten_cons, List.append_assoc, List.append_assoc] at hsplit
        obtain ⟨hvalid, hdrop⟩ := hnext p₀ _ hsplit
        obtain ⟨hshape₀, hacc₀⟩ := hpre p₀ List.mem_cons_self
        obtain ⟨v, hv⟩ := (hd c _ hc).2 ⟨p₀, _, hsplit, hshape₀, hacc₀, rfl⟩
        refine (ih _ hvalid).1 (hrest v _ hv) pre p rest ?_ ?_ ?_ hshape
        · rw [hdrop, List.append_assoc]
        · rw [List.length_cons] at hlen
          omega
        · exact fun p' hp' => hpre p' (List.mem_cons_of_mem _ hp')
    · intro h
      refine ⟨(hq c hc).2 fun p rest hsplit hshape => ?_, fun v c' hv => ?_⟩
      · exact h [] p rest (by simpa using hsplit) (Nat.succ_pos n) (by simp) hshape
      · obtain ⟨p₀, rest₀, hsplit₀, hshape₀, hacc₀, rfl⟩ := (hd c c' hc).1 ⟨v, hv⟩
        obtain ⟨hvalid, hdrop⟩ := hnext p₀ _ hsplit₀
        refine (ih _ hvalid).2 fun pre p rest hsplit hlen hpre hshape => ?_
        simp only at hsplit
        rw [hdrop] at hsplit
        refine h (p₀ :: pre) p rest ?_ ?_ ?_ hshape
        · rw [hsplit₀, hsplit, List.map_cons, List.flatten_cons]
          simp only [List.append_assoc]
        · rw [List.length_cons]
          omega
        · intro p' hp'
          rcases List.mem_cons.1 hp' with rfl | hp'
          · exact ⟨hshape₀, hacc₀⟩
          · exact hpre p' hp'

end Realises

end Traced

end ServiceLib
