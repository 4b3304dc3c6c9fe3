import ServiceLib.Datasource.ResultRouting

/-!
# Results delivered from within a result callback

A result callback may itself deliver a result, and await the delivery before it returns. The outer
delivery then holds the `lifetime` of its request for reading while the inner one asks for it.
Tokio's lock is fair: whoever waits for the write side keeps later readers out. So this module
gives the locks of `ServiceLib.Datasource.ResultRouting` their queues, and deliveries their inner
deliveries.

`delivery_not_stuck`: no delivery is stuck behind its own request as long as inner deliveries ask
for the lock before the completing request does. This is exact. Nothing sees to it in the HTTP, the
Kafka and the custom source: between the lookup of the inner delivery and its request for the lock,
the request may complete and queue up (`inner_delivery_stuck`), and then it waits for the outer
delivery, the outer for the inner, and the inner for the request, for as long as nobody drops one of
them (`Stuck.step`). In the gRPC source a delivery in the queue can always leave
(`grpc_delivery_leaves`).
-/

namespace ServiceLib

namespace NestedDelivery

open ResultRouting (Config RequestPc Delivery DeliveryPc Routed withResult)

/-! ## The system -/

/-- Who waits for a lifetime lock. -/
inductive Waiter
  | reader (d : ℕ)
  | writer (r : ℕ)
  deriving DecidableEq

def Waiter.isWriter : Waiter → Bool
  | .writer _ => true
  | .reader _ => false

/-- Those in front of `w`. -/
def ahead (queue : List Waiter) (w : Waiter) : List Waiter := queue.takeWhile (· ≠ w)

/-- Waiting begins with the first poll. -/
def enqueue (queue : List Waiter) (w : Waiter) : List Waiter :=
  if w ∈ queue then queue else queue ++ [w]

/-- The queues of the lifetime locks, and the deliveries each callback has made. -/
structure State where
  routing : ResultRouting.State
  queue : ℕ → List Waiter
  inner : ℕ → List ℕ

def State.init : State where
  routing := .init
  queue := fun _ => []
  inner := fun _ => []

namespace State

def delivery (s : State) (d : ℕ) : DeliveryPc := (s.routing.deliveries d).pc

def request (s : State) (r : ℕ) : RequestPc := (s.routing.requests r).pc

def setQueue (s : State) (e : ℕ) (queue : List Waiter) : State :=
  { s with queue := Function.update s.queue e queue }

/-- A waiter that is gone leaves its queue. -/
def unqueue (s : State) (gone : Option Waiter) : State :=
  { s with queue := fun e => (s.queue e).filter fun w => gone ≠ some w }

/-- A callback has returned, or is dropped, only after the deliveries it awaits. -/
def Alone (s : State) (d : ℕ) : Prop := ∀ d' ∈ s.inner d, s.delivery d' = .returned

instance (s : State) (d : ℕ) : Decidable (s.Alone d) :=
  inferInstanceAs (Decidable (∀ d' ∈ s.inner d, s.delivery d' = .returned))

end State

inductive Action
  /-- Everything but the locks. -/
  | routing (a : ResultRouting.Action)
  /-- `lifetime.read()` is polled. -/
  | read (d : ℕ)
  /-- `lifetime.write()` is polled. -/
  | write (r : ℕ)
  /-- The callback of `outer` delivers a result, and awaits the delivery. -/
  | deliverInner (outer d : ℕ) (streamId : Option String)

/-- The waiter that is gone after a step. -/
def leaver : ResultRouting.Action → Option Waiter
  | .lockRead d | .late d | .dropDelivery d => some (.reader d)
  | .lockWrite r | .drop r => some (.writer r)
  | _ => none

/-- A step of the routing. -/
def route (cfg : Config) (s : State) (a : ResultRouting.Action) : Option State :=
  (ResultRouting.step cfg s.routing a).map fun x => State.unqueue { s with routing := x } (leaver a)

/-- A reader is granted the lock if no writer is in front of it, and none holds it. -/
def read (cfg : Config) (s : State) (d r : ℕ) : State :=
  let queue := enqueue (s.queue r) (.reader d)
  let waiting := s.setQueue r queue
  if (ahead queue (.reader d)).any Waiter.isWriter then waiting
  else (route cfg s (.lockRead d)).getD waiting

/-- A writer is granted the lock if it is the first one, and nobody holds it. -/
def write (cfg : Config) (s : State) (r e : ℕ) : State :=
  let queue := enqueue (s.queue e) (.writer r)
  let waiting := s.setQueue e queue
  if ahead queue (.writer r) = [] then (route cfg s (.lockWrite r)).getD waiting else waiting

/-- May the delivery take this step while its callback awaits others? -/
def State.Ready (s : State) : ResultRouting.Action → Prop
  | .called d _ | .dropDelivery d => s.Alone d
  | .lockRead _ | .lockWrite _ => False
  | _ => True

instance (s : State) : ∀ a, Decidable (s.Ready a)
  | .called d _ | .dropDelivery d => inferInstanceAs (Decidable (s.Alone d))
  | .lockRead _ | .lockWrite _ => inferInstanceAs (Decidable False)
  | .begin _ _ | .register _ | .endRejected _ | .setResultCallback _ _ _ | .done _ | .cancel _
  | .consumed _ _ | .waited _ _ | .received _ _ | .abandon _ | .complete _ | .endReturned _
  | .finish _ | .drop _ | .deliver _ _ | .lookup _ | .late _ | .checkClosing _ | .checkPending _
  | .identified _ _ | .rotateShard _ _ => inferInstanceAs (Decidable True)

def step (cfg : Config) (s : State) : Action → Option State
  | .routing a =>
    if s.Ready a then route cfg s a else none
  | .read d =>
    match s.delivery d with
    | .locking r => some (NestedDelivery.read cfg s d r)
    | _ => none
  | .write r =>
    match s.request r with
    | .locking (some e) _ _ => some (NestedDelivery.write cfg s r e)
    | .locking none _ _ => route cfg s (.lockWrite r)
    | _ => none
  | .deliverInner outer d streamId =>
    match s.delivery outer with
    | .calling _ _ _ =>
      (route cfg s (.deliver d streamId)).map fun t =>
        { t with inner := Function.update t.inner outer (t.inner outer ++ [d]) }
    | _ => none

def system (cfg : Config) : System State Action := ⟨.init, step cfg⟩

/-! ## Stuck deliveries -/

/-- The request waits for the write side, the outer delivery for the inner one, and the inner one
for the read side, behind the request. -/
structure Stuck (s : State) (r outer inner : ℕ) : Prop where
  completing : ∃ waitCancelled result, s.request r = .locking (some r) waitCancelled result
  calling : ∃ message callback, s.delivery outer = .calling r message callback
  awaited : inner ∈ s.inner outer
  locking : s.delivery inner = .locking r
  queued : .reader inner ∈ s.queue r
  behind : .writer r ∈ ahead (s.queue r) (.reader inner)

/-- An inner delivery asks for the lock of its own request before that request does. -/
def InTime (s : State) : Action → Prop
  | .read d => ∀ r outer message callback, s.delivery d = .locking r →
      .reader d ∉ s.queue r → d ∈ s.inner outer → s.delivery outer = .calling r message callback →
      .writer r ∉ s.queue r
  | _ => True

/-! ## Queues -/

theorem mem_ahead {queue : List Waiter} {v w : Waiter} (h : v ∈ ahead queue w) : v ∈ queue :=
  (List.takeWhile_sublist _).subset h

theorem ahead_append {queue : List Waiter} {w x : Waiter} (h : x ∈ queue) :
    ahead (queue ++ [w]) x = ahead queue x := by
  induction queue with
  | nil => cases h
  | cons u queue ih =>
    by_cases hux : u = x
    · simp [ahead, hux]
    · have hmem : x ∈ queue := (List.mem_cons.1 h).resolve_left (Ne.symm hux)
      simp only [ahead, List.cons_append, List.takeWhile_cons, ne_eq, hux, not_false_eq_true,
        decide_true, if_true] at ih ⊢
      rw [ih hmem]

theorem ahead_append_self {queue : List Waiter} {w : Waiter} (h : w ∉ queue) :
    ahead (queue ++ [w]) w = queue := by
  have hne : ∀ u ∈ queue, decide (u ≠ w) = true := by
    intro u hu
    exact decide_eq_true fun hc => h (hc ▸ hu)
  unfold ahead
  rw [List.takeWhile_append_of_pos hne]
  simp

theorem ahead_enqueue {queue : List Waiter} {w x : Waiter} (h : x ∈ queue) :
    ahead (enqueue queue w) x = ahead queue x := by
  unfold enqueue
  split_ifs
  · rfl
  · exact ahead_append h

theorem mem_enqueue {queue : List Waiter} {v w : Waiter} :
    v ∈ enqueue queue w ↔ v ∈ queue ∨ v = w := by
  unfold enqueue
  split_ifs with h
  · exact ⟨.inl, fun hv => hv.elim id fun hw => hw ▸ h⟩
  · rw [List.mem_append, List.mem_singleton]

/-- Who leaves a queue changes nothing for those who stay. -/
theorem mem_ahead_filter {queue : List Waiter} {p : Waiter → Bool} {v x : Waiter}
    (hx : p x = true) :
    v ∈ ahead (queue.filter p) x ↔ v ∈ ahead queue x ∧ p v = true := by
  induction queue with
  | nil => exact ⟨nofun, nofun⟩
  | cons u queue ih =>
    by_cases hu : p u = true
    · rw [List.filter_cons_of_pos hu]
      by_cases hux : u = x
      · subst hux
        simp [ahead]
      · simp only [ahead, List.takeWhile_cons, ne_eq, hux, not_false_eq_true, decide_true, if_true,
          List.mem_cons] at ih ⊢
        rw [ih]
        constructor
        · rintro (rfl | ⟨hv, hp⟩)
          · exact ⟨.inl rfl, hu⟩
          · exact ⟨.inr hv, hp⟩
        · rintro ⟨rfl | hv, hp⟩
          · exact .inl rfl
          · exact .inr ⟨hv, hp⟩
    · rw [List.filter_cons_of_neg hu]
      have hux : u ≠ x := fun hc => hu (hc ▸ hx)
      simp only [ahead, List.takeWhile_cons, ne_eq, hux, not_false_eq_true, decide_true, if_true,
        List.mem_cons] at ih ⊢
      rw [ih]
      constructor
      · rintro ⟨hv, hp⟩
        exact ⟨.inr hv, hp⟩
      · rintro ⟨rfl | hv, hp⟩
        · exact absurd hp hu
        · exact ⟨hv, hp⟩

/-! ## What a step does -/

variable {cfg : Config} {s t : State} {a : Action}

/-- A waiter and the entry it waits for. -/
def State.Waits (s : State) (e : ℕ) : Waiter → Prop
  | .reader d => s.delivery d = .locking e
  | .writer r => ∃ waitCancelled result, s.request r = .locking (some e) waitCancelled result

/-- The ways to take a step: on with the routing, wait for a lock, or deliver from within a
callback. -/
inductive Effect (cfg : Config) (s : State) : Action → State → Prop
  | routed {a : Action} {b : ResultRouting.Action} {t : State} (hr : route cfg s b = some t)
      (hb : a = .routing b ∨ (∃ d, b = .lockRead d) ∨ ∃ r, b = .lockWrite r)
      (halone : ∀ d, (∃ remove, b = .called d remove) ∨ b = .dropDelivery d → s.Alone d)
      (hfirst : ∀ d r, b = .lockRead d → s.delivery d = .locking r → ∀ r',
        .writer r' ∉ ahead (s.queue r) (.reader d)) : Effect cfg s a t
  | waits {e : ℕ} {a : Action} {w : Waiter} (hw : s.Waits e w)
      (ha : ∀ d, w = .reader d → a = .read d) :
      Effect cfg s a (s.setQueue e (enqueue (s.queue e) w))
  | inner {outer d r c : ℕ} {message : String} {streamId : Option String} {t : State}
      (hc : s.delivery outer = .calling r message c)
      (hr : route cfg s (.deliver d streamId) = some t) :
      Effect cfg s (.deliverInner outer d streamId)
        { t with inner := Function.update t.inner outer (t.inner outer ++ [d]) }

theorem writer_notMem_ahead {queue : List Waiter} {w : Waiter}
    (h : ¬ (ahead (enqueue queue w) w).any Waiter.isWriter = true) (r : ℕ) :
    .writer r ∉ ahead queue w := by
  intro hm
  refine h (List.any_eq_true.2 ⟨.writer r, ?_, rfl⟩)
  unfold enqueue
  split_ifs with hw
  · exact hm
  · rw [ahead_append_self hw]
    exact mem_ahead hm

theorem step_effect (hs : step cfg s a = some t) : Effect cfg s a t := by
  cases a with
  | routing b =>
    simp only [step] at hs
    split_ifs at hs with hready
    refine .routed hs (.inl rfl) ?_ ?_
    · rintro d (⟨remove, rfl⟩ | rfl) <;> exact hready
    · rintro d r rfl
      exact hready.elim
  | read d =>
    simp only [step] at hs
    split at hs
    · rename_i r hpc
      rw [Option.some.injEq] at hs
      subst hs
      unfold NestedDelivery.read
      dsimp only
      split_ifs with hany
      · exact .waits hpc fun _ h => by cases h; rfl
      · cases hr : route cfg s (.lockRead d) with
        | none => exact .waits hpc fun _ h => by cases h; rfl
        | some t =>
          refine .routed hr (.inr (.inl ⟨d, rfl⟩)) ?_ ?_
          · rintro d' (⟨remove, hb⟩ | hb) <;> cases hb
          · rintro d' r' hb hpc' r''
            cases hb
            rw [hpc] at hpc'
            cases hpc'
            exact writer_notMem_ahead hany r''
    · cases hs
  | write r =>
    simp only [step] at hs
    split at hs
    · rename_i e waitCancelled result hpc
      rw [Option.some.injEq] at hs
      subst hs
      unfold NestedDelivery.write
      dsimp only
      split_ifs with hfirst
      · cases hr : route cfg s (.lockWrite r) with
        | none => exact .waits ⟨_, _, hpc⟩ nofun
        | some t =>
          refine .routed hr (.inr (.inr ⟨r, rfl⟩)) ?_ nofun
          rintro d' (⟨remove, hb⟩ | hb) <;> cases hb
      · exact .waits ⟨_, _, hpc⟩ nofun
    · refine .routed hs (.inr (.inr ⟨r, rfl⟩)) ?_ nofun
      rintro d' (⟨remove, hb⟩ | hb) <;> cases hb
    · cases hs
  | deliverInner outer d streamId =>
    simp only [step] at hs
    split at hs
    · rename_i r message c hc
      rw [Option.map_eq_some_iff] at hs
      obtain ⟨t, hr, rfl⟩ := hs
      exact .inner hc hr
    · cases hs

theorem route_eq_some {b : ResultRouting.Action} (hr : route cfg s b = some t) :
    ResultRouting.step cfg s.routing b = some t.routing ∧ t.inner = s.inner ∧
      t.queue = (s.unqueue (leaver b)).queue := by
  obtain ⟨x, hx, rfl⟩ := Option.map_eq_some_iff.1 hr
  exact ⟨hx, rfl, rfl⟩

/-! ## The invariant -/

structure Ok (s : State) : Prop where
  queued : ∀ e, ∀ w ∈ s.queue e, s.Waits e w
  /-- Inner deliveries are over before their callback is. -/
  inner : ∀ outer, ∀ d ∈ s.inner outer, s.delivery d = .returned ∨
    ∃ r message c, s.delivery outer = .calling r message c

theorem ok_init : Ok .init where
  queued := fun _ _ hw => by cases hw
  inner := fun _ _ hd => by cases hd

/-- Whoever is still queued after a step still waits. -/
theorem State.Waits.route {e : ℕ} {w : Waiter} {b : ResultRouting.Action} (h : s.Waits e w)
    (hr : route cfg s b = some t) (hw : leaver b ≠ some w) : t.Waits e w := by
  obtain ⟨hx, -, -⟩ := route_eq_some hr
  cases w with
  | reader d =>
    rcases ResultRouting.step_locking hx h with hpc | rfl | rfl | rfl
    · exact hpc
    · exact absurd rfl hw
    · exact absurd rfl hw
    · exact absurd rfl hw
  | writer r =>
    obtain ⟨waitCancelled, result, hpc⟩ := h
    rcases ResultRouting.step_completing hx hpc with hpc | rfl | rfl
    · exact ⟨_, _, hpc⟩
    · exact absurd rfl hw
    · exact absurd rfl hw

theorem mem_unqueue {e : ℕ} {w : Waiter} {gone : Option Waiter} :
    w ∈ (s.unqueue gone).queue e ↔ w ∈ s.queue e ∧ gone ≠ some w := by
  simp [State.unqueue]

theorem Ok.route (h : Ok s) {b : ResultRouting.Action} (hr : route cfg s b = some t)
    (halone : ∀ d, (∃ remove, b = .called d remove) ∨ b = .dropDelivery d → s.Alone d) : Ok t := by
  obtain ⟨hx, hinner, hqueue⟩ := route_eq_some hr
  refine ⟨fun e w hw => ?_, fun outer d hd => ?_⟩
  · rw [hqueue, mem_unqueue] at hw
    exact (h.queued e w hw.1).route hr hw.2
  · rw [hinner] at hd
    rcases h.inner outer d hd with hret | ⟨r, message, c, hcall⟩
    · exact .inl (ResultRouting.step_returned hx hret)
    · rcases ResultRouting.step_calling hx hcall with hcall | hb | hb
      · exact .inr ⟨r, message, c, hcall⟩
      · exact .inl (ResultRouting.step_returned hx (halone outer (.inl hb) d hd))
      · exact .inl (ResultRouting.step_returned hx (halone outer (.inr hb) d hd))

theorem Ok.step (h : Ok s) (hs : step cfg s a = some t) : Ok t := by
  cases step_effect hs with
  | routed hr _ halone _ => exact h.route hr halone
  | @waits e _ w hw _ =>
    refine ⟨fun e' w' hw' => ?_, h.inner⟩
    change w' ∈ Function.update s.queue e _ e' at hw'
    by_cases he : e' = e
    · subst he
      rw [Function.update_self, mem_enqueue] at hw'
      rcases hw' with hw' | rfl
      · exact h.queued e' w' hw'
      · exact hw
    · rw [Function.update_of_ne he] at hw'
      exact h.queued e' w' hw'
  | @inner outer d r c message streamId t hc hr =>
    have ht : Ok t := by
      refine h.route hr ?_
      rintro d' (⟨remove, hb⟩ | hb) <;> cases hb
    refine ⟨ht.queued, fun outer' d' hd => ?_⟩
    change d' ∈ Function.update t.inner outer _ outer' at hd
    have hcall : t.delivery outer = .calling r message c := by
      rcases ResultRouting.step_calling (route_eq_some hr).1 hc with hpc | ⟨_, hb⟩ | hb
      · exact hpc
      · cases hb
      · cases hb
    by_cases ho : outer' = outer
    · subst ho
      exact .inr ⟨r, message, c, hcall⟩
    · rw [Function.update_of_ne ho] at hd
      exact ht.inner outer' d' hd

theorem ok_of_reach {ok : State → Action → Prop} (h : (system cfg).Reach ok s) : Ok s :=
  h.invariant (I := Ok) ok_init fun _ _ _ hi _ hs => hi.step hs

/-! ## How a delivery gets stuck -/

/-- On its way through the routing, nothing gets stuck. -/
theorem Stuck.of_route {r outer inner : ℕ} {b : ResultRouting.Action} (hok : Ok s)
    (hr : route cfg s b = some t) (h : Stuck t r outer inner) : Stuck s r outer inner := by
  obtain ⟨hx, hinner, hqueue⟩ := route_eq_some hr
  have hin : inner ∈ s.inner outer := hinner ▸ h.awaited
  have hq := h.queued
  have hb := h.behind
  rw [hqueue, mem_unqueue] at hq
  rw [hqueue] at hb
  have hbehind : .writer r ∈ ahead (s.queue r) (.reader inner) :=
    ((mem_ahead_filter (decide_eq_true hq.2)).1 hb).1
  have hlock : s.delivery inner = .locking r := hok.queued r _ hq.1
  refine ⟨hok.queued r _ (mem_ahead hbehind), ?_, hin, hlock, hq.1, hbehind⟩
  obtain ⟨message, c, hcall⟩ := h.calling
  rcases ResultRouting.step_to_calling hx hcall with hold | hold
  · exact ⟨message, c, hold⟩
  · -- A delivery that does not run its callback yet awaits nothing.
    rcases hok.inner outer inner hin with hret | ⟨r', message', c', hcalling⟩
    · rw [hlock] at hret
      cases hret
    · have hclash : DeliveryPc.identifying r = .calling r' message' c' := hold.symm.trans hcalling
      cases hclash

theorem Stuck.of_step {r outer inner : ℕ} (hok : Ok s) (hin : InTime s a)
    (hs : step cfg s a = some t) (h : Stuck t r outer inner) : Stuck s r outer inner := by
  cases step_effect hs with
  | routed hr _ _ _ => exact h.of_route hok hr
  | @waits e _ w hw ha =>
    obtain ⟨hcomp, hcall, hawait, hlock, hq, hbehind⟩ := h
    change _ ∈ Function.update s.queue e _ r at hq
    change _ ∈ ahead (Function.update s.queue e _ r) _ at hbehind
    by_cases he : r = e
    · subst he
      rw [Function.update_self, mem_enqueue] at hq
      rw [Function.update_self] at hbehind
      by_cases hold : .reader inner ∈ s.queue r
      · rw [ahead_enqueue hold] at hbehind
        exact ⟨hcomp, hcall, hawait, hlock, hold, hbehind⟩
      · -- The inner delivery has just asked for the lock: its request has not.
        obtain rfl : .reader inner = w := hq.resolve_left hold
        rw [enqueue, if_neg hold, ahead_append_self hold] at hbehind
        obtain ⟨message, c, hcalling⟩ := hcall
        rw [ha inner rfl] at hin
        exact absurd hbehind (hin r outer message c hlock hold hawait hcalling)
    · rw [Function.update_of_ne he] at hq hbehind
      exact ⟨hcomp, hcall, hawait, hlock, hq, hbehind⟩
  | @inner outer' d r' c message streamId t hc hr =>
    obtain ⟨hcomp, hcall, hawait, hlock, hq, hbehind⟩ := h
    have hx := (route_eq_some hr).1
    have hstarted : t.delivery d = .started := by
      simp only [ResultRouting.step, ResultRouting.stepDelivery] at hx
      split at hx
      · rw [Option.some.injEq] at hx
        simp only [State.delivery, ← hx, ResultRouting.State.setDelivery, Function.update_self]
      · cases hx
    refine Stuck.of_route hok hr ⟨hcomp, hcall, ?_, hlock, hq, hbehind⟩
    change inner ∈ Function.update t.inner outer' _ outer at hawait
    by_cases ho : outer = outer'
    · subst ho
      rw [Function.update_self, List.mem_append, List.mem_singleton] at hawait
      refine hawait.resolve_right ?_
      rintro rfl
      have hclash : DeliveryPc.locking r = .started := hlock.symm.trans hstarted
      cases hclash
    · rwa [Function.update_of_ne ho] at hawait

/-- An inner delivery that asks too late is stuck. -/
theorem stuck_of_not_inTime (hok : Ok s) (hs : step cfg s a = some t) (hnot : ¬ InTime s a) :
    ∃ r outer inner, Stuck t r outer inner := by
  cases a with
  | read d =>
    simp only [InTime, not_forall, exists_prop, not_not] at hnot
    obtain ⟨r, outer, message, c, hlock, hnew, hawait, hcall, hw⟩ := hnot
    have hahead : .writer r ∈ ahead (enqueue (s.queue r) (.reader d)) (.reader d) := by
      rw [enqueue, if_neg hnew, ahead_append_self hnew]
      exact hw
    simp only [step, hlock, Option.some.injEq] at hs
    rw [NestedDelivery.read, if_pos (List.any_eq_true.2 ⟨_, hahead, rfl⟩)] at hs
    refine ⟨r, outer, d, ?_⟩
    rw [← hs]
    refine ⟨hok.queued r _ hw, ⟨message, c, hcall⟩, hawait, hlock, ?_, ?_⟩
    · change _ ∈ Function.update s.queue r _ r
      rw [Function.update_self]
      exact mem_enqueue.2 (.inr rfl)
    · change _ ∈ ahead (Function.update s.queue r _ r) _
      rwa [Function.update_self]
  | routing | write | deliverInner => exact absurd trivial hnot

/-- The routing is the one of `ServiceLib.Datasource.ResultRouting`. -/
theorem step_routing (hs : step cfg s a = some t) :
    t.routing = s.routing ∨ ∃ b, ResultRouting.step cfg s.routing b = some t.routing := by
  cases step_effect hs with
  | routed hr _ _ _ => exact .inr ⟨_, (route_eq_some hr).1⟩
  | waits _ _ => exact .inl rfl
  | inner _ hr => exact .inr ⟨_, (route_eq_some hr).1⟩

theorem routed_of_reach {ok : State → Action → Prop} (h : (system cfg).Reach ok s) :
    ∃ m, Routed cfg s.routing m := by
  refine h.invariant (I := fun s => ∃ m, Routed cfg s.routing m)
    ⟨∅, ResultRouting.routed_init cfg⟩ ?_
  rintro s a t ⟨m, hm⟩ - hs
  rcases step_routing hs with heq | ⟨b, hb⟩
  · exact ⟨m, heq ▸ hm⟩
  · exact hm.step hb

/-- Somebody who is stuck is dropped, or leaves because the request is closing. -/
def Frees (r outer inner : ℕ) (a : Action) : Prop :=
  a = .routing (.drop r) ∨ a = .routing (.dropDelivery outer) ∨
    a = .routing (.dropDelivery inner) ∨ a = .routing (.late inner)

theorem leaver_reader {b : ResultRouting.Action} {d : ℕ} (h : leaver b = some (.reader d)) :
    b = .lockRead d ∨ b = .late d ∨ b = .dropDelivery d := by
  cases b <;> simp only [leaver, Option.some.injEq, Waiter.reader.injEq, reduceCtorEq] at h
  · exact .inl (congrArg _ h)
  · exact .inr (.inl (congrArg _ h))
  · exact .inr (.inr (congrArg _ h))

theorem leaver_writer {b : ResultRouting.Action} {r : ℕ} (h : leaver b = some (.writer r)) :
    b = .lockWrite r ∨ b = .drop r := by
  cases b <;> simp only [leaver, Option.some.injEq, Waiter.writer.injEq, reduceCtorEq] at h
  · exact .inl (congrArg _ h)
  · exact .inr (congrArg _ h)

/-- The lock is not granted for writing while a callback runs under it. -/
theorem Stuck.not_lockWrite {r outer inner : ℕ} {m : HashMap String ℕ} (h : Stuck s r outer inner)
    (hm : Routed cfg s.routing m) : route cfg s (.lockWrite r) = none := by
  obtain ⟨waitCancelled, result, hpc⟩ := h.completing
  obtain ⟨message, c, hcall⟩ := h.calling
  have hread : outer ∈ (s.routing.requests r).readers := by
    have hd := hm.deliveries outer
    simp only [ResultRouting.DeliveryOk, show (s.routing.deliveries outer).pc = _ from hcall] at hd
    exact hd.1.reading
  have hne : ¬ ((s.routing.requests r).readers = ∅ ∧ (s.routing.requests r).writer = false) :=
    fun hc => Finset.ne_empty_of_mem hread hc.1
  simp only [route, ResultRouting.step, ResultRouting.stepRequest,
    show (s.routing.requests r).pc = _ from hpc, if_neg hne, Option.map_none]

/-- What moves on past the stuck ones leaves them as they are. -/
theorem Stuck.route {r outer inner : ℕ} {b : ResultRouting.Action} (h : Stuck s r outer inner)
    (hr : route cfg s b = some t) (hreader : leaver b ≠ some (.reader inner))
    (hwriter : leaver b ≠ some (.writer r)) (hdrop : b ≠ .dropDelivery outer)
    (hcalled : ∀ remove, b ≠ .called outer remove) : Stuck t r outer inner := by
  obtain ⟨hx, hinner, hqueue⟩ := route_eq_some hr
  obtain ⟨waitCancelled, result, hpc⟩ := h.completing
  obtain ⟨message, c, hcall⟩ := h.calling
  refine ⟨State.Waits.route (w := .writer r) ⟨_, _, hpc⟩ hr hwriter, ⟨message, c, ?_⟩,
    hinner ▸ h.awaited, State.Waits.route (w := .reader inner) h.locking hr hreader, ?_, ?_⟩
  · rcases ResultRouting.step_calling hx hcall with hpc | ⟨remove, hb⟩ | hb
    · exact hpc
    · exact absurd hb (hcalled remove)
    · exact absurd hb hdrop
  · rw [hqueue, mem_unqueue]
    exact ⟨h.queued, hreader⟩
  · rw [hqueue]
    exact (mem_ahead_filter (decide_eq_true hreader)).2 ⟨h.behind, decide_eq_true hwriter⟩

/-- **A stuck delivery stays stuck**, until one of the three is dropped. -/
theorem Stuck.step {r outer inner : ℕ} {m : HashMap String ℕ} (h : Stuck s r outer inner)
    (hm : Routed cfg s.routing m) (hs : step cfg s a = some t) (hfree : ¬ Frees r outer inner a) :
    Stuck t r outer inner := by
  simp only [Frees, not_or] at hfree
  obtain ⟨hdrop, houter, hinner, hlate⟩ := hfree
  cases step_effect hs with
  | @routed _ b _ hr hb halone hfirst =>
    -- The step is not one that frees a stuck one, unless it is a lock.
    have hact : ∀ b', a ≠ .routing b' → (∀ d, b' ≠ .lockRead d) → (∀ r, b' ≠ .lockWrite r) →
        b ≠ b' := by
      rintro b' hne hnr hnw rfl
      rcases hb with hb | ⟨d, hb⟩ | ⟨r', hb⟩
      · exact hne hb
      · exact hnr d hb
      · exact hnw r' hb
    have hdrop := hact _ hdrop (fun _ => nofun) (fun _ => nofun)
    have houter := hact _ houter (fun _ => nofun) (fun _ => nofun)
    have hinner := hact _ hinner (fun _ => nofun) (fun _ => nofun)
    have hlate := hact _ hlate (fun _ => nofun) (fun _ => nofun)
    refine h.route hr ?_ ?_ houter ?_
    · intro hl
      rcases leaver_reader hl with hb | hb | hb
      · exact hfirst inner r hb h.locking r h.behind
      · exact hlate hb
      · exact hinner hb
    · intro hl
      rcases leaver_writer hl with hb | hb
      · rw [hb, h.not_lockWrite hm] at hr
        cases hr
      · exact hdrop hb
    · intro remove hb
      have hret := halone outer (.inl ⟨remove, hb⟩) inner h.awaited
      rw [h.locking] at hret
      cases hret
  | @waits e _ w hw _ =>
    obtain ⟨hcomp, hcall, hawait, hlock, hq, hbehind⟩ := h
    refine ⟨hcomp, hcall, hawait, hlock, ?_, ?_⟩
    · change _ ∈ Function.update s.queue e _ r
      by_cases he : r = e
      · subst he
        rw [Function.update_self]
        exact mem_enqueue.2 (.inl hq)
      · rwa [Function.update_of_ne he]
    · change _ ∈ ahead (Function.update s.queue e _ r) _
      by_cases he : r = e
      · subst he
        rw [Function.update_self, ahead_enqueue hq]
        exact hbehind
      · rwa [Function.update_of_ne he]
  | @inner outer' d r' c message streamId t hc hr =>
    obtain ⟨hcomp, hcall, hawait, hlock, hq, hbehind⟩ := h.route hr nofun nofun nofun (fun _ => nofun)
    refine ⟨hcomp, hcall, ?_, hlock, hq, hbehind⟩
    change inner ∈ Function.update t.inner outer' _ outer
    by_cases ho : outer = outer'
    · subst ho
      rw [Function.update_self]
      exact List.mem_append_left _ hawait
    · rwa [Function.update_of_ne ho]

/-! ## Main result -/

/-- **No delivery is stuck while inner deliveries are in time.** In every run in which an inner
delivery asks for the read lock of the request its outer delivery is for only while that request
does not wait for the write lock: no state has the request waiting for the outer delivery, the
outer one for the inner, and the inner one for the request. And this is exact: a further step leads
to such a state if and only if it breaks the condition. -/
theorem delivery_not_stuck (h : (system cfg).Reach InTime s) :
    (∀ r outer inner, ¬ Stuck s r outer inner) ∧
    ∀ a t, step cfg s a = some t →
      ((∀ r outer inner, ¬ Stuck t r outer inner) ↔ InTime s a) := by
  have hfree : ∀ r outer inner, ¬ Stuck s r outer inner := by
    have hinv : Ok s ∧ ∀ r outer inner, ¬ Stuck s r outer inner := by
      refine h.invariant (I := fun s => Ok s ∧ ∀ r outer inner, ¬ Stuck s r outer inner)
        ⟨ok_init, fun r outer inner hst => by cases hst.awaited⟩ ?_
      rintro s a t ⟨hok, hfree⟩ hin hs
      exact ⟨hok.step hs, fun r outer inner hst => hfree r outer inner (hst.of_step hok hin hs)⟩
    exact hinv.2
  have hok := ok_of_reach h
  refine ⟨hfree, fun a t hs => ⟨fun ht => ?_, fun hin r outer inner hst => ?_⟩⟩
  · by_contra hnot
    obtain ⟨r, outer, inner, hst⟩ := stuck_of_not_inTime hok hs hnot
    exact ht r outer inner hst
  · exact hfree r outer inner (hst.of_step hok hin hs)

/-- In the gRPC source a delivery can leave the queue of a request that completes. -/
theorem grpc_delivery_leaves (hsource : cfg.source = .grpc) (h : (system cfg).Reachable s)
    {r d : ℕ} (hlock : s.delivery d = .locking r)
    (hcomp : ∃ waitCancelled result, s.request r = .locking (some r) waitCancelled result) :
    ∃ t, step cfg s (.routing (.late d)) = some t ∧ t.delivery d = .returned := by
  obtain ⟨m, hm⟩ := routed_of_reach h
  obtain ⟨waitCancelled, result, hpc⟩ := hcomp
  have hpub : (s.routing.requests r).published = true := by
    have hd := hm.deliveries d
    simp only [ResultRouting.DeliveryOk, show (s.routing.deliveries d).pc = _ from hlock] at hd
    exact hd.2
  have hclosing : (s.routing.requests r).closing = true := by
    refine (hm.requests r).closing hsource hpub (.inr ?_)
    rw [show (s.routing.requests r).pc = _ from hpc]
    rfl
  set x := s.routing.setDelivery d { s.routing.deliveries d with pc := .returned } with hxdef
  have hx : ResultRouting.step cfg s.routing (.late d) = some x := by
    simp only [ResultRouting.step, ResultRouting.stepDelivery,
      show (s.routing.deliveries d).pc = _ from hlock, if_pos (And.intro hsource hclosing)]
    rfl
  refine ⟨State.unqueue { s with routing := x } (some (.reader d)), ?_, ?_⟩
  · simp only [step, if_pos (show s.Ready (.late d) from trivial), route, hx]
    rfl
  · change (x.deliveries d).pc = _
    simp only [hxdef, ResultRouting.State.setDelivery, Function.update_self]

/-- No reader asks while a writer waits. -/
def prompt (s : State) : Action → Bool
  | .read d =>
    match s.delivery d with
    | .locking r => .writer r ∉ s.queue r
    | _ => true
  | _ => true

theorem inTime_of_prompt (h : prompt s a = true) : InTime s a := by
  cases a with
  | read d =>
    intro r outer message c hlock _ _ _
    simpa only [prompt, hlock, decide_eq_true_eq] using h
  | routing | write | deliverInner => exact trivial

/-- The callback of delivery 1 delivers another result for the same request, and the inner delivery
has found the entry of the request. -/
def nested : List Action :=
  [.routing (.begin 0 "a"), .routing (.register 0), .routing (.setResultCallback 0 "m" 7),
    .routing (.consumed 0 (.ok ())), .routing (.deliver 1 (some "a")), .routing (.lookup 1),
    .read 1, .routing (.checkPending 1), .routing (.identified 1 "m"),
    .deliverInner 1 2 (some "a"), .routing (.lookup 2)]

/-- The request completes, and polls the lock. -/
def completed : List Action :=
  [.routing (.done 0), .routing (.waited 0 true), .routing (.complete 0), .write 0]

/-- The inner delivery asks first. -/
def askedFirst : List Action := nested ++ [.read 2] ++ completed

/-- The request asks first. -/
def askedLate : List Action := nested ++ completed ++ [.read 2]

theorem askedFirst_runs :
    (((system (withResult .http)).restrict fun s a => prompt s a = true).run .init
      askedFirst).isSome := by
  decide +kernel

theorem delivery_not_stuck_askedFirst :
    ∃ s, (system (withResult .http)).Reach InTime s ∧ s.delivery 2 = .matching 0 ∧
      s.queue 0 = [.writer 0] ∧ ¬ Stuck s 0 1 2 := by
  have h : (system (withResult .http)).Reach InTime
      ((((system (withResult .http)).restrict fun s a => prompt s a = true).run .init
        askedFirst).get askedFirst_runs) :=
    (System.reachable_get askedFirst_runs).reach.mono fun _ _ => inTime_of_prompt
  exact ⟨_, h, rfl, by decide +kernel, (delivery_not_stuck h).1 0 1 2⟩

theorem askedLate_runs :
    ((system (withResult .http)).run .init askedLate).isSome ∧
      ((system (withResult .kafka)).run .init askedLate).isSome ∧
      ((system (withResult .custom)).run .init askedLate).isSome := by
  decide +kernel

/-- **An inner delivery is stuck**, in each of the three sources. -/
theorem inner_delivery_stuck :
    (∃ s, (system (withResult .http)).Reachable s ∧ Stuck s 0 1 2) ∧
    (∃ s, (system (withResult .kafka)).Reachable s ∧ Stuck s 0 1 2) ∧
    ∃ s, (system (withResult .custom)).Reachable s ∧ Stuck s 0 1 2 := by
  refine ⟨⟨_, System.reachable_get askedLate_runs.1, ?_⟩,
    ⟨_, System.reachable_get askedLate_runs.2.1, ?_⟩,
    ⟨_, System.reachable_get askedLate_runs.2.2, ?_⟩⟩ <;>
  exact ⟨⟨_, _, rfl⟩, ⟨_, _, rfl⟩, by decide +kernel, rfl, by decide +kernel, by decide +kernel⟩

end NestedDelivery

end ServiceLib
