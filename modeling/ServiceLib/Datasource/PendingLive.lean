import ServiceLib.Datasource.ResultRouting

/-!
# Pending requests are live requests

The HTTP, Kafka and custom sources insert a request into `pending` and take it out again in
straight-line code around `consume_message` and the wait for `done`. Here the requests of
`ServiceLib.Datasource.ResultRouting` can break off in between:

* `consume_message` may panic. No source resumes a request that has panicked: the `CompleteOnDrop`
  around an HTTP request is still `polling` then, and drops it.
* The owner of the future may drop it. `CompleteOnDrop` then hands an HTTP request on to a task of
  its own, with its context cancelled; the other two sources have nothing of the kind.

`pending_live`: as long as no request breaks off between its insertion and its removal, `pending`
holds only requests in progress, so that the id of a request that is over can be admitted again
and its entry takes no more results. This is exact: a request that breaks off there stays in
`pending` for good (`broken_request_stays`).
-/

namespace ServiceLib

namespace PendingLive

open RotatingMap ResultRouting

/-! ## The system -/

inductive Event
  /-- A step of a request, a delivery or the map, as long as nothing breaks off. -/
  | act (a : Action)
  /-- `consume_message` panics. -/
  | panic (r : ℕ)
  /-- The owner drops the future of a request that is suspended. -/
  | abandon (r : ℕ)

/-- `CompleteOnDrop` runs the rest of an abandoned HTTP request. -/
def step (cfg : Config) (s : State) : Event → Option State
  | .act (.drop _) => none
  | .act a => ResultRouting.step cfg s a
  | .panic r =>
    match (s.requests r).pc with
    | .consuming => ResultRouting.step cfg s (.drop r)
    | _ => none
  | .abandon r =>
    if cfg.source = .http then
      match (s.requests r).pc with
      | .rejected _ | .consuming | .waiting | .locking _ _ _ | .ending _ _ =>
        ResultRouting.step cfg s (.cancel r)
      | _ => none
    else ResultRouting.step cfg s (.drop r)

def system (cfg : Config) : System State Event := ⟨State.init, step cfg⟩

/-! ## The property and its condition -/

/-- `begin_request` has returned, and the request is neither over nor broken off. -/
def InProgress : RequestPc → Prop
  | .absent | .finished | .dropped => False
  | _ => True

/-- Only requests in progress are in `pending`, each under its own id. -/
def Live (cfg : Config) (s : State) : Prop :=
  ∀ sid r, s.pending.get cfg.hash sid = some r →
    (s.requests r).streamId = sid ∧ InProgress (s.requests r).pc

/-- A step in which no request breaks off between its insertion and its removal. -/
def Unbroken (cfg : Config) (s : State) : Event → Prop
  | .act _ => True
  | .panic _ => cfg.hasResult = false
  | .abandon r => cfg.source = .http ∨ cfg.hasResult = false ∨
      ((s.requests r).pc ≠ .consuming ∧ (s.requests r).pc ≠ .waiting)

/-! ## What a step does -/

variable {cfg : Config} {s t : State}

theorem setRequest_self (s : State) (r : ℕ) (q : Request) : (s.setRequest r q).requests r = q :=
  Function.update_self ..

theorem step_act {a : Action} (hs : step cfg s (.act a) = some t) :
    ResultRouting.step cfg s a = some t ∧ ∀ r, a ≠ .drop r := by
  cases a with
  | drop r => cases hs
  | _ => exact ⟨hs, fun _ => nofun⟩

/-- Every step is one of the requests and deliveries. -/
theorem step_routing {e : Event} (hs : step cfg s e = some t) :
    ∃ a, ResultRouting.step cfg s a = some t := by
  cases e with
  | act a => exact ⟨a, (step_act hs).1⟩
  | panic r =>
    cases hpc : (s.requests r).pc <;> simp only [step, hpc, reduceCtorEq] at hs
    exact ⟨_, hs⟩
  | abandon r =>
    simp only [step] at hs
    split at hs
    · split at hs <;> first | exact ⟨_, hs⟩ | cases hs
    · exact ⟨_, hs⟩

theorem routed_of_reach {ok : State → Event → Prop} (h : (system cfg).Reach ok s) :
    ∃ a, Routed cfg s a := by
  refine h.invariant (I := fun s => ∃ a, Routed cfg s a) ⟨∅, routed_init cfg⟩ ?_
  rintro s e t ⟨a, ha⟩ - hs
  obtain ⟨b, hb⟩ := step_routing hs
  exact ha.step hb

/-- A request comes to its end by itself only from where it is no longer in `pending`, or was
refused there. -/
theorem stepRequest_ends {r : ℕ} {a : Action} (hs : stepRequest cfg s r a = some t)
    (ha : ∀ r', a ≠ .drop r') (hpc : InProgress (s.requests r).pc)
    (hover : ¬ InProgress (t.requests r).pc) :
    (∃ result, (s.requests r).pc = .rejected result) ∨
      ∃ guard, (s.requests r).pc = .closed guard := by
  have hset : ∀ {u : State} {q : Request}, InProgress q.pc → u.setRequest r q ≠ t := by
    rintro u q hq rfl
    rw [setRequest_self] at hover
    exact hover hq
  cases a with
  | drop r' => exact absurd rfl (ha r')
  | endRejected _ =>
    cases hp : (s.requests r).pc <;> simp only [stepRequest, hp, reduceCtorEq] at hs
    exact .inl ⟨_, rfl⟩
  | finish _ =>
    cases hp : (s.requests r).pc <;> simp only [stepRequest, hp, reduceCtorEq] at hs
    exact .inr ⟨_, rfl⟩
  | setResultCallback _ _ _ =>
    simp only [stepRequest] at hs
    split at hs
    · rw [Option.some.injEq] at hs
      exact absurd hs (hset hpc)
    · cases hs
  | done _ | cancel _ =>
    simp only [stepRequest, Option.some.injEq] at hs
    exact absurd hs (hset hpc)
  | begin _ _ | register _ | consumed _ _ | waited _ _ | received _ _ | abandon _ | complete _
  | lockWrite _ | endReturned _ =>
    simp only [stepRequest] at hs
    repeat' split at hs
    all_goals first
      | cases hs
        done
      | rw [Option.some.injEq] at hs
        exact absurd hs (hset trivial)
  | deliver _ _ | lookup _ | lockRead _ | late _ | checkClosing _ | checkPending _ | identified _ _
  | called _ _ | dropDelivery _ | rotateShard _ _ => cases hs

theorem step_ends {r : ℕ} {a : Action} (hs : ResultRouting.step cfg s a = some t)
    (ha : ∀ r', a ≠ .drop r') (hpc : InProgress (s.requests r).pc)
    (hover : ¬ InProgress (t.requests r).pc) :
    (∃ result, (s.requests r).pc = .rejected result) ∨
      ∃ guard, (s.requests r).pc = .closed guard := by
  unfold ResultRouting.step at hs
  cases a with
  | rotateShard i order =>
    cases hs
    exact absurd hpc hover
  | begin r' _ | register r' | endRejected r' | setResultCallback r' _ _ | done r' | cancel r'
  | consumed r' _ | waited r' _ | received r' _ | abandon r' | complete r' | lockWrite r'
  | endReturned r' | finish r' | drop r' =>
    by_cases hr : r = r'
    · subst hr
      exact stepRequest_ends hs ha hpc hover
    · rw [(stepRequest_beside hs).2 r hr] at hover
      exact absurd hpc hover
  | deliver _ _ | lookup _ | lockRead _ | late _ | checkClosing _ | checkPending _ | identified _ _
  | called _ _ | dropDelivery _ =>
    rw [(stepDelivery_around hs).pc r] at hover
    exact absurd hpc hover

/-- Most steps of a request do not touch `pending`. -/
theorem stepRequest_pending {r : ℕ} {a : Action} (hs : stepRequest cfg s r a = some t)
    (hreg : ∀ r', a ≠ .register r') (hcom : ∀ r', a ≠ .complete r')
    (hsource : cfg.source ≠ .grpc) : t.pending = s.pending := by
  have hunlock : ∀ (u : State) (guard : Option ℕ), (u.unlock guard).pending = u.pending := by
    intro u guard
    cases guard <;> rfl
  cases a with
  | register r' => exact absurd rfl (hreg r')
  | complete r' => exact absurd rfl (hcom r')
  | finish _ =>
    cases hp : (s.requests r).pc <;> simp only [stepRequest, hp, reduceCtorEq] at hs
    rw [Option.some.injEq, if_neg hsource] at hs
    exact hs ▸ hunlock _ _
  | drop _ =>
    simp only [stepRequest, if_neg hsource] at hs
    cases hp : (s.requests r).pc <;> simp only [hp, reduceCtorEq, Option.some.injEq] at hs
    case ending guard result => exact hs ▸ hunlock _ _
    all_goals exact hs ▸ rfl
  | lockWrite _ =>
    cases hp : (s.requests r).pc <;> simp only [stepRequest, hp, reduceCtorEq] at hs
    split at hs
    · rw [Option.some.injEq] at hs
      exact hs ▸ rfl
    · split at hs
      · rw [Option.some.injEq] at hs
        exact hs ▸ rfl
      · cases hs
  | begin _ _ | endRejected _ | setResultCallback _ _ _ | done _ | cancel _ | consumed _ _
  | waited _ _ | received _ _ | abandon _ | endReturned _ =>
    simp only [stepRequest] at hs
    repeat' split at hs
    all_goals first
      | cases hs
        done
      | rw [Option.some.injEq] at hs
        exact hs ▸ rfl
  | deliver _ _ | lookup _ | lockRead _ | late _ | checkClosing _ | checkPending _ | identified _ _
  | called _ _ | dropDelivery _ | rotateShard _ _ => cases hs

theorem register_get {m : HashMap String ℕ} (h : Routed cfg s m) {r' : ℕ}
    (hs : stepRequest cfg s r' (.register r') = some t) {sid : String} {r : ℕ}
    (hget : t.pending.get cfg.hash sid = some r) :
    s.pending.get cfg.hash sid = some r ∨ (t.requests r).pc = .consuming := by
  cases hp : (s.requests r').pc <;> simp only [stepRequest, hp, reduceCtorEq] at hs
  split at hs
  · obtain ⟨hans, href⟩ := h.refines.set (s.requests r').streamId r'
    generalize s.pending.set cfg.hash (s.requests r').streamId r' = res at hs hans href
    obtain ⟨pending, result⟩ := res
    by_cases hkey : (s.requests r').streamId ∈ m
    · rw [if_pos hkey] at hans href
      cases hans
      cases hs
      exact .inl ((h.refines.get sid).trans ((href.get sid).symm.trans hget))
    · rw [if_neg hkey] at hans href
      cases hans
      cases hs
      have hl := (href.get sid).symm.trans hget
      rw [lookup_insert_ite] at hl
      split_ifs at hl with hsid
      · cases hl
        exact .inr (congrArg Request.pc (setRequest_self _ _ _))
      · exact .inl ((h.refines.get sid).trans hl)
  · rw [Option.some.injEq] at hs
    subst hs
    exact .inl hget

theorem complete_get {m : HashMap String ℕ} (h : Routed cfg s m) (hsource : cfg.source ≠ .grpc)
    {r' : ℕ} (hs : stepRequest cfg s r' (.complete r') = some t) {sid : String} {r : ℕ}
    (hget : t.pending.get cfg.hash sid = some r) : s.pending.get cfg.hash sid = some r := by
  cases hp : (s.requests r').pc <;>
    simp only [stepRequest, hp, reduceCtorEq, if_neg hsource] at hs
  split at hs
  · rw [Option.some.injEq] at hs
    subst hs
    have hl := ((h.refines.pop (s.requests r').streamId).2.get sid).symm.trans hget
    rw [lookup_erase_ite] at hl
    split_ifs at hl
    exact (h.refines.get sid).trans hl
  · rw [Option.some.injEq] at hs
    subst hs
    exact hget

/-- Only `register` inserts. -/
theorem step_get {m : HashMap String ℕ} (h : Routed cfg s m) (hsource : cfg.source ≠ .grpc)
    {a : Action} (hs : ResultRouting.step cfg s a = some t) {sid : String} {r : ℕ}
    (hget : t.pending.get cfg.hash sid = some r) :
    s.pending.get cfg.hash sid = some r ∨ (t.requests r).pc = .consuming := by
  unfold ResultRouting.step at hs
  cases a with
  | rotateShard i order =>
    cases hs
    have hl := ((h.refines.rotateShard cfg.minCapacity i order).get sid).symm.trans hget
    exact .inl ((h.refines.get sid).trans hl)
  | register r' => exact register_get h hs hget
  | complete r' => exact .inl (complete_get h hsource hs hget)
  | begin _ _ | endRejected _ | setResultCallback _ _ _ | done _ | cancel _ | consumed _ _
  | waited _ _ | received _ _ | abandon _ | lockWrite _ | endReturned _ | finish _ | drop _ =>
    exact .inl (stepRequest_pending hs nofun nofun hsource ▸ hget)
  | deliver _ _ | lookup _ | lockRead _ | late _ | checkClosing _ | checkPending _ | identified _ _
  | called _ _ | dropDelivery _ =>
    exact .inl ((stepDelivery_around hs).pending ▸ hget)

/-! ## The invariant -/

theorem live_init : Live cfg State.init := by
  intro sid r hget
  have hl := ((routed_init cfg).refines.get sid).symm.trans hget
  rw [Finmap.lookup_empty] at hl
  cases hl

/-- An entry in `pending` belongs to a request between its insertion and its removal, or to one
that is over. -/
theorem listed_pc {m : HashMap String ℕ} (h : Routed cfg s m) (hsource : cfg.source ≠ .grpc)
    {sid : String} {r : ℕ} (hget : s.pending.get cfg.hash sid = some r) :
    (s.requests r).streamId = sid ∧ ((s.requests r).pc.Published cfg.source ∨
      ¬ InProgress (s.requests r).pc) := by
  have hl := h.listed sid r ((h.refines.get sid).symm.trans hget)
  refine ⟨hl.streamId, ?_⟩
  obtain ⟨-, hbegun, hrejected⟩ := (h.requests r).fresh hl.published
  have hguard := (hl.early hsource).2
  cases hpc : (s.requests r).pc with
  | consuming | waiting | completing => exact .inl trivial
  | absent | finished | dropped => exact .inr id
  | begun => exact absurd hpc hbegun
  | rejected result => exact absurd hpc (hrejected result)
  | locking | ending | closed =>
    rw [hpc] at hguard
    cases hguard

/-- **One step.** As long as no request breaks off, the entries of `pending` stay live. -/
theorem Live.act {m : HashMap String ℕ} (h : Live cfg s) (hr : Routed cfg s m)
    (hsource : cfg.source ≠ .grpc) {a : Action} (ha : ∀ r, a ≠ .drop r)
    (hs : ResultRouting.step cfg s a = some t) : Live cfg t := by
  intro sid r hget
  obtain ⟨m', hr'⟩ := hr.step hs
  obtain ⟨hsid, hpc⟩ := listed_pc hr' hsource hget
  refine ⟨hsid, ?_⟩
  rcases step_get hr hsource hs hget with hold | hnew
  · obtain ⟨-, hprogress⟩ := h sid r hold
    by_contra hover
    -- A request that came to its end in this step was not in `pending`.
    obtain ⟨-, hpub⟩ := listed_pc hr hsource hold
    rcases step_ends hs ha hprogress hover with ⟨result, he⟩ | ⟨guard, he⟩
    · rw [he] at hpub
      exact hpub.elim id fun hn => hn trivial
    · rw [he] at hpub
      exact hpub.elim hsource fun hn => hn trivial
  · rw [hnew]
    trivial

/-- A request that breaks off outside of `pending` leaves the entries alone. -/
theorem Live.drop {m : HashMap String ℕ} (h : Live cfg s) (hr : Routed cfg s m)
    (hsource : cfg.source ≠ .grpc) {r : ℕ}
    (hout : cfg.hasResult = false ∨ ¬ (s.requests r).pc.Published cfg.source)
    (hs : stepRequest cfg s r (.drop r) = some t) : Live cfg t := by
  intro sid r' hget
  obtain ⟨m', hr'⟩ := hr.stepRequest hs
  refine ⟨(listed_pc hr' hsource hget).1, ?_⟩
  have hold : s.pending.get cfg.hash sid = some r' :=
    stepRequest_pending hs nofun nofun hsource ▸ hget
  obtain ⟨-, hprogress⟩ := h sid r' hold
  by_cases hrr : r' = r
  · subst hrr
    rcases hout with hnone | hunpub
    · have hp := (hr.requests r').publishes
        (hr.listed sid r' ((hr.refines.get sid).symm.trans hold)).published
      simp [Config.publishes, hsource, hnone] at hp
    · exact absurd hprogress (((listed_pc hr hsource hold).2).resolve_left hunpub)
  · rwa [(stepRequest_beside hs).2 r' hrr]

/-- A request that breaks off between its insertion and its removal stays in `pending`. -/
theorem not_live_of_drop {m : HashMap String ℕ} (hr : Routed cfg s m)
    (hsource : cfg.source ≠ .grpc) (hres : cfg.hasResult = true) {r : ℕ}
    (hpc : (s.requests r).pc = .consuming ∨ (s.requests r).pc = .waiting)
    (hs : stepRequest cfg s r (.drop r) = some t) : ¬ Live cfg t := by
  intro hlive
  have hpub : (s.requests r).pc.Published cfg.source := by
    rcases hpc with hpc | hpc <;> rw [hpc] <;> trivial
  have hget : t.pending.get cfg.hash (s.requests r).streamId = some r := by
    rw [stepRequest_pending hs nofun nofun hsource]
    exact (hr.refines.get _).trans ((hr.requests r).listed (by simp [Config.publishes, hres]) hpub)
  have hgone : (t.requests r).pc = .dropped := by
    simp only [stepRequest, if_neg hsource] at hs
    rcases hpc with hpc | hpc <;> simp only [hpc, Option.some.injEq] at hs <;>
      rw [← hs, setRequest_self]
  have hover := (hlive _ r hget).2
  rw [hgone] at hover
  exact hover

theorem Live.next {m : HashMap String ℕ} (h : Live cfg s) (hr : Routed cfg s m)
    (hsource : cfg.source ≠ .grpc) {e : Event} (hok : Unbroken cfg s e)
    (hs : step cfg s e = some t) : Live cfg t := by
  cases e with
  | act a =>
    obtain ⟨hs, ha⟩ := step_act hs
    exact h.act hr hsource ha hs
  | panic r =>
    cases hpc : (s.requests r).pc <;> simp only [PendingLive.step, hpc, reduceCtorEq] at hs
    exact h.drop hr hsource (.inl hok) hs
  | abandon r =>
    simp only [PendingLive.step] at hs
    split at hs
    · have hcancel : ∀ r', Action.cancel r ≠ .drop r' := fun _ => nofun
      split at hs <;> first | cases hs; done | exact h.act hr hsource hcancel hs
    · rename_i hhttp
      refine h.drop hr hsource ((hok.resolve_left hhttp).imp_right ?_) hs
      rintro ⟨hcons, hwait⟩ hpub
      -- A future is not dropped where it is not suspended.
      have hs' : stepRequest cfg s r (.drop r) = some t := hs
      cases hpc : (s.requests r).pc with
      | consuming => exact hcons hpc
      | waiting => exact hwait hpc
      | completing =>
        simp only [stepRequest, if_neg hsource, hpc, reduceCtorEq] at hs'
      | locking | ending | closed =>
        rw [hpc] at hpub
        exact hsource hpub
      | absent | begun | rejected | finished | dropped =>
        rw [hpc] at hpub
        exact hpub

theorem not_live_of_not_unbroken {m : HashMap String ℕ} (hr : Routed cfg s m)
    (hsource : cfg.source ≠ .grpc) {e : Event} (hs : step cfg s e = some t)
    (hnot : ¬ Unbroken cfg s e) : ¬ Live cfg t := by
  cases e with
  | act a => exact absurd trivial hnot
  | panic r =>
    cases hpc : (s.requests r).pc <;> simp only [PendingLive.step, hpc, reduceCtorEq] at hs
    exact not_live_of_drop hr hsource (by simpa [Unbroken] using hnot) (.inl hpc) hs
  | abandon r =>
    simp only [Unbroken, not_or, not_and_or, not_not] at hnot
    obtain ⟨hhttp, hres, hpc⟩ := hnot
    simp only [PendingLive.step, if_neg hhttp] at hs
    exact not_live_of_drop hr hsource (by simpa using hres) hpc hs

/-! ## What follows for the ids -/

/-- The entry of a request that is over takes no more results: no delivery finds it, and none is
let through to it. -/
theorem Live.no_results (h : Live cfg s) {r d : ℕ} (hover : ¬ InProgress (s.requests r).pc) :
    (∀ t, step cfg s (.act (.lookup d)) = some t → (t.deliveries d).pc ≠ .locking r) ∧
      ∀ t, step cfg s (.act (.checkPending d)) = some t → (t.deliveries d).pc ≠ .identifying r := by
  have hgone : (s.deliveries d).streamId.bind (s.pending.get cfg.hash) ≠ some r := by
    intro hb
    obtain ⟨sid, -, hget⟩ := Option.bind_eq_some_iff.1 hb
    exact hover (h sid r hget).2
  constructor
  · intro t hs hpc
    simp only [PendingLive.step, ResultRouting.step, stepDelivery] at hs
    split at hs
    · split at hs <;> cases hs <;>
        simp only [State.setDelivery, Function.update_self, reduceCtorEq, DeliveryPc.locking.injEq]
          at hpc
      subst hpc
      rename_i hb
      exact hgone hb
    · cases hs
  · intro t hs hpc
    simp only [PendingLive.step, ResultRouting.step, stepDelivery] at hs
    split at hs
    · split at hs <;> cases hs <;>
        simp only [State.leave, State.setDelivery, Function.update_self, reduceCtorEq,
          DeliveryPc.identifying.injEq] at hpc
      subst hpc
      rename_i hb
      exact hgone hb
    · cases hs

/-- An id is admitted unless a request in progress has inserted it. -/
theorem Live.admits {m : HashMap String ℕ} (h : Live cfg s) (hr : Routed cfg s m) {r : ℕ}
    (hpc : (s.requests r).pc = .begun)
    (hfree : ∀ r', (s.requests r').streamId = (s.requests r).streamId →
      (s.requests r').published = true → ¬ InProgress (s.requests r').pc) :
    ∃ t, step cfg s (.act (.register r)) = some t ∧ (t.requests r).pc = .consuming := by
  simp only [PendingLive.step, ResultRouting.step, stepRequest, hpc]
  split
  · have hkey : (s.requests r).streamId ∉ m := by
      intro hmem
      obtain ⟨r', hl⟩ := Finmap.mem_iff.1 hmem
      have hlisted := hr.listed _ r' hl
      exact hfree r' hlisted.streamId hlisted.published
        (h _ r' ((hr.refines.get _).trans hl)).2
    have hans := (hr.refines.set (s.requests r).streamId r).1
    rw [if_neg hkey] at hans
    generalize s.pending.set cfg.hash (s.requests r).streamId r = res at hans ⊢
    obtain ⟨pending, result⟩ := res
    cases hans
    exact ⟨_, rfl, congrArg Request.pc (setRequest_self ..)⟩
  · exact ⟨_, rfl, congrArg Request.pc (setRequest_self ..)⟩

/-! ## Main result -/

/-- **Pending requests are live.** In every run of the HTTP, the Kafka or the custom source in
which no request breaks off between its insertion and its removal:

* every entry of `pending` belongs to a request in progress, under that request's id;
* the entry of a request that is over takes no more results;
* an id is admitted unless a request in progress has inserted it.

And this is exact: a further step keeps `pending` live if and only if it meets the condition. -/
theorem pending_live (hsource : cfg.source ≠ .grpc) (h : (system cfg).Reach (Unbroken cfg) s) :
    Live cfg s ∧
    (∀ r d, ¬ InProgress (s.requests r).pc →
      (∀ t, step cfg s (.act (.lookup d)) = some t → (t.deliveries d).pc ≠ .locking r) ∧
      ∀ t, step cfg s (.act (.checkPending d)) = some t →
        (t.deliveries d).pc ≠ .identifying r) ∧
    (∀ r, (s.requests r).pc = .begun →
      (∀ r', (s.requests r').streamId = (s.requests r).streamId →
        (s.requests r').published = true → ¬ InProgress (s.requests r').pc) →
      ∃ t, step cfg s (.act (.register r)) = some t ∧ (t.requests r).pc = .consuming) ∧
    ∀ e t, step cfg s e = some t → (Live cfg t ↔ Unbroken cfg s e) := by
  have hinv : Live cfg s ∧ ∃ m, Routed cfg s m := by
    refine h.invariant (I := fun s => Live cfg s ∧ ∃ m, Routed cfg s m)
      ⟨live_init, ∅, routed_init cfg⟩ ?_
    rintro s e t ⟨hlive, m, hr⟩ hok hs
    obtain ⟨a, ha⟩ := step_routing hs
    exact ⟨hlive.next hr hsource hok hs, hr.step ha⟩
  obtain ⟨hlive, m, hr⟩ := hinv
  refine ⟨hlive, fun r d hover => hlive.no_results hover, fun r hpc hfree => hlive.admits hr hpc hfree,
    fun e t hs => ⟨fun ht => ?_, fun hok => hlive.next hr hsource hok hs⟩⟩
  by_contra hnot
  exact not_live_of_not_unbroken hr hsource hs hnot ht

instance (cfg : Config) (s : State) : ∀ e, Decidable (Unbroken cfg s e)
  | .act _ => inferInstanceAs (Decidable True)
  | .panic _ => inferInstanceAs (Decidable (cfg.hasResult = false))
  | .abandon r => inferInstanceAs (Decidable (cfg.source = .http ∨ cfg.hasResult = false ∨
      ((s.requests r).pc ≠ .consuming ∧ (s.requests r).pc ≠ .waiting)))

/-- The client of an HTTP request leaves while its message is consumed. The request runs to its end,
and another one begins under the same id. -/
def clientGone : List Event :=
  [.act (.begin 0 "a"), .act (.register 0), .abandon 0, .act (.consumed 0 (.ok ())),
    .act (.waited 0 false), .act (.complete 0), .act (.lockWrite 0), .act (.endReturned 0),
    .act (.finish 0), .act (.begin 1 "a")]

theorem clientGone_runs :
    (((system (withResult .http)).restrict (Unbroken (withResult .http))).run State.init
      clientGone).isSome := by
  decide +kernel

theorem pending_live_clientGone :
    ∃ s, (system (withResult .http)).Reach (Unbroken (withResult .http)) s ∧
      (s.requests 0).pc = .finished ∧ Live (withResult .http) s := by
  have h := (System.reachable_get clientGone_runs).reach
  exact ⟨_, h, rfl, (pending_live (by decide) h).1⟩

/-- `consume_message` panics, or the owner of the future drops it; then a second request begins
under the same id. -/
def brokenOff (e : Event) : List Event :=
  [.act (.begin 0 "a"), .act (.register 0), e, .act (.begin 1 "a"), .act (.register 1)]

theorem panicked_runs :
    ((system (withResult .http)).run State.init (brokenOff (.panic 0))).isSome := by
  decide +kernel

theorem dropped_runs :
    ((system (withResult .kafka)).run State.init (brokenOff (.abandon 0))).isSome ∧
      ((system (withResult .custom)).run State.init (brokenOff (.abandon 0))).isSome := by
  decide +kernel

/-- Request 0 is over but still in `pending`, and request 1 was refused because of it. -/
def Stays (cfg : Config) (s : State) : Prop :=
  (s.requests 0).pc = .dropped ∧ s.pending.get cfg.hash "a" = some 0 ∧
    (s.requests 1).pc = .rejected (.error (.runtime .duplicateKey))

theorem Stays.not_live (h : Stays cfg s) : ¬ Live cfg s := by
  intro hlive
  have hover := (hlive "a" 0 h.2.1).2
  rw [h.1] at hover
  exact hover

/-- **A request that breaks off stays in `pending`**: an HTTP request after a panic, a Kafka or
custom one also when its future is dropped. -/
theorem broken_request_stays :
    (∃ s, (system (withResult .http)).Reachable s ∧ Stays (withResult .http) s ∧
      ¬ Live (withResult .http) s) ∧
    (∃ s, (system (withResult .kafka)).Reachable s ∧ Stays (withResult .kafka) s ∧
      ¬ Live (withResult .kafka) s) ∧
    ∃ s, (system (withResult .custom)).Reachable s ∧ Stays (withResult .custom) s ∧
      ¬ Live (withResult .custom) s := by
  refine ⟨⟨_, System.reachable_get panicked_runs, ?_⟩,
    ⟨_, System.reachable_get dropped_runs.1, ?_⟩, ⟨_, System.reachable_get dropped_runs.2, ?_⟩⟩
  · have h : Stays (withResult .http) (((system (withResult .http)).run State.init
        (brokenOff (.panic 0))).get panicked_runs) := ⟨rfl, by decide +kernel, by decide +kernel⟩
    exact ⟨h, h.not_live⟩
  · have h : Stays (withResult .kafka) (((system (withResult .kafka)).run State.init
        (brokenOff (.abandon 0))).get dropped_runs.1) := ⟨rfl, by decide +kernel, by decide +kernel⟩
    exact ⟨h, h.not_live⟩
  · have h : Stays (withResult .custom) (((system (withResult .custom)).run State.init
        (brokenOff (.abandon 0))).get dropped_runs.2) := ⟨rfl, by decide +kernel, by decide +kernel⟩
    exact ⟨h, h.not_live⟩

end PendingLive

end ServiceLib
