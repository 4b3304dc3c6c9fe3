import ServiceLib.Datasource.ResultRouting

/-!
# A result callback retires itself

A delivery looks up the callback of its message id, runs it, and removes the registration of the
message id if the callback returns `true`. These are three critical sections, and the removal goes
by the id alone. The requests and deliveries are those of `ServiceLib.Datasource.ResultRouting`,
which takes any step between them; a registration from inside the callback is one of these.

**Theorem (`callback_retires_itself`).** As long as nothing is registered for a message id while a
callback of that id runs that returns `true`, such a callback removes its own registration and no
other one. This is exact: a registration made meanwhile is the one that is removed.

The idea: what a running callback will remove is its own registration or nothing, and only a new
registration for the same id can change that. Every other step leaves a registration alone or
takes it away.

The gRPC source keeps its callbacks in a `CallbackStore`, which is a map
(`ServiceLib.Datasource.CallbackStore`).
-/

namespace ServiceLib

namespace CallbackRetirement

open ResultRouting ResultRouting.State

variable {cfg : Config} {s t : State}

/-! ## The property and its condition -/

/-- The callback a request has for a message id. -/
def registered (s : State) (r : ℕ) (message : String) : Option ℕ :=
  (s.requests r).callbacks.bind fun callbacks => callbacks.lookup message

/-- From `s` to `t`, every registration but that of `callback` stays, and the next result with its
id is handed to it. -/
def Spares (cfg : Config) (s t : State) (r : ℕ) (message : String) (callback : ℕ) : Prop :=
  ∀ r' message' callback', registered s r' message' = some callback' →
    ¬ (r' = r ∧ message' = message ∧ callback' = callback) →
    registered t r' message' = some callback' ∧
    ∀ d u, (t.deliveries d).pc = .identifying r' →
      step cfg t (.identified d message') = some u →
      (u.deliveries d).pc = .calling r' message' callback'

/-- No callback is registered for a message id while another one of the id runs that will return
`true`; `retires` says which deliveries run such a callback. -/
def Unrivalled (retires : ℕ → Bool) (s : State) : Action → Prop
  | .called d remove => remove = retires d
  | .setResultCallback r message _ =>
    ∀ d callback, (s.deliveries d).pc = .calling r message callback → retires d = false
  | _ => True

/-! ## What a step does to the registrations -/

/-- Nothing is registered in `t` that was not in `s`. -/
def Fewer (s t : State) : Prop :=
  ∀ r message, registered t r message = registered s r message ∨ registered t r message = none

theorem Fewer.refl (s : State) : Fewer s s := fun _ _ => .inl rfl

theorem registered_setRequest_self (s : State) (r : ℕ) (q : Request) (message : String) :
    registered (s.setRequest r q) r message =
      q.callbacks.bind fun callbacks => callbacks.lookup message := by
  unfold registered
  rw [show (s.setRequest r q).requests r = q from Function.update_self ..]

theorem registered_setRequest_ne (s : State) {r r' : ℕ} (hr : r' ≠ r) (q : Request)
    (message : String) : registered (s.setRequest r q) r' message = registered s r' message := by
  unfold registered
  rw [show (s.setRequest r q).requests r' = s.requests r' from Function.update_of_ne hr ..]

/-- Replacing an entry, with its callbacks or with fewer. -/
theorem Fewer.setRequest (h : Fewer s t) {r : ℕ} {q : Request}
    (hq : ∀ message,
      (q.callbacks.bind fun callbacks => callbacks.lookup message) = registered t r message ∨
      (q.callbacks.bind fun callbacks => callbacks.lookup message) = none) :
    Fewer s (t.setRequest r q) := by
  intro r' message
  by_cases hr : r' = r
  · subst hr
    rw [registered_setRequest_self]
    rcases hq message with hq | hq
    · rw [hq]
      exact h r' message
    · exact .inr hq
  · rw [registered_setRequest_ne _ hr]
    exact h r' message

/-- An update of an entry that keeps its callbacks. -/
theorem Fewer.same (h : Fewer s t) {r : ℕ} {q : Request}
    (hq : q.callbacks = (t.requests r).callbacks) : Fewer s (t.setRequest r q) :=
  h.setRequest fun message => .inl (by rw [hq, registered])

theorem Fewer.setDelivery (h : Fewer s t) (d : ℕ) (q : Delivery) :
    Fewer s (t.setDelivery d q) := h

theorem Fewer.unlock (h : Fewer s t) (guard : Option ℕ) : Fewer s (t.unlock guard) := by
  cases guard with
  | none => exact h
  | some e => exact h.same rfl

theorem Fewer.leave (h : Fewer s t) (d r : ℕ) : Fewer s (t.leave d r) :=
  Fewer.same (q := { t.requests r with readers := (t.requests r).readers.erase d }) h rfl

/-- The entry of a request that is over may lose its callbacks. -/
theorem Fewer.close (h : Fewer s t) {c : Prop} [Decidable c] {r : ℕ} {q : Request}
    (hq : q.callbacks = if c then none else (t.requests r).callbacks) :
    Fewer s (t.setRequest r q) := by
  refine h.setRequest fun message => ?_
  rw [hq]
  split_ifs
  · exact .inr rfl
  · exact .inl rfl

theorem stepRequest_fewer {r : ℕ} {a : Action} (hs : stepRequest cfg s r a = some t)
    (ha : ∀ r' message callback, a ≠ .setResultCallback r' message callback) : Fewer s t := by
  have hrefl : ∀ (pending : RotatingMap String ℕ), Fewer s { s with pending := pending } :=
    fun _ => Fewer.refl s
  cases a with
  | begin _ streamId =>
    cases hpc : (s.requests r).pc <;> simp only [stepRequest, hpc, reduceCtorEq] at hs
    rw [Option.some.injEq] at hs
    exact hs ▸ (Fewer.refl s).setRequest fun message => .inr rfl
  | endRejected _ =>
    cases hpc : (s.requests r).pc <;> simp only [stepRequest, hpc, reduceCtorEq] at hs
    rw [Option.some.injEq] at hs
    exact hs ▸ (Fewer.refl s).close rfl
  | lockWrite _ =>
    cases hpc : (s.requests r).pc <;> simp only [stepRequest, hpc, reduceCtorEq] at hs
    rename_i removed waitCancelled result
    cases removed with
    | none =>
      rw [Option.some.injEq] at hs
      exact hs ▸ (Fewer.refl s).same rfl
    | some e =>
      dsimp only at hs
      split at hs
      · rw [Option.some.injEq] at hs
        have hlock : Fewer s (s.setRequest e { s.requests e with writer := true }) :=
          (Fewer.refl s).same rfl
        exact hs ▸ hlock.same rfl
      · cases hs
  | finish _ =>
    cases hpc : (s.requests r).pc <;> simp only [stepRequest, hpc, reduceCtorEq] at hs
    rw [Option.some.injEq] at hs
    refine hs ▸ Fewer.unlock ?_ _
    split
    · exact (Fewer.refl s).close rfl
    · exact (Fewer.refl s).close rfl
  | drop _ =>
    simp only [stepRequest] at hs
    split at hs
    · cases hs
    cases hpc : (s.requests r).pc <;> simp only [hpc, reduceCtorEq, Option.some.injEq] at hs
    case ending guard result =>
      refine hs ▸ Fewer.unlock ?_ guard
      exact (Fewer.refl s).same rfl
    all_goals exact hs ▸ (Fewer.refl s).same rfl
  | setResultCallback r' message callback => exact absurd rfl (ha r' message callback)
  | register _ | done _ | cancel _ | consumed _ _ | waited _ _ | received _ _ | abandon _
  | complete _ | endReturned _ =>
    simp only [stepRequest] at hs
    repeat' split at hs
    all_goals first
      | cases hs
        done
      | rw [Option.some.injEq] at hs
        exact hs ▸ Fewer.same (hrefl _) rfl
  | deliver _ _ | lookup _ | lockRead _ | late _ | checkClosing _ | checkPending _ | identified _ _
  | called _ _ | dropDelivery _ | rotateShard _ _ => cases hs

/-- What is left of the callbacks when one has returned. -/
theorem lookup_called (callbacks : Option (HashMap String ℕ)) (remove : Bool)
    (message message' : String) :
    ((callbacks.map fun m : HashMap String ℕ => if remove then m.erase message else m).bind
        fun m => m.lookup message') =
      if remove = true ∧ message' = message then none
      else callbacks.bind fun m => m.lookup message' := by
  cases callbacks with
  | none => simp
  | some m =>
    cases remove with
    | false => simp
    | true => simp [RotatingMap.lookup_erase_ite]

theorem stepDelivery_fewer {d : ℕ} {a : Action} (hs : stepDelivery cfg s d a = some t) :
    Fewer s t := by
  cases a with
  | lockRead _ =>
    cases hpc : (s.deliveries d).pc <;> simp only [stepDelivery, hpc, reduceCtorEq] at hs
    split at hs
    · rw [Option.some.injEq] at hs
      refine hs ▸ Fewer.setDelivery ?_ d _
      exact (Fewer.refl s).same rfl
    · cases hs
  | called _ remove =>
    cases hpc : (s.deliveries d).pc <;>
      simp only [stepDelivery, hpc, reduceCtorEq, Option.some.injEq] at hs
    rename_i r message callback
    refine hs ▸ Fewer.leave ((Fewer.refl s).setRequest fun message' => ?_) d r
    rw [lookup_called]
    split_ifs
    · exact .inr rfl
    · exact .inl rfl
  | deliver _ _ | lookup _ | late _ | checkClosing _ | checkPending _ | identified _ _
  | dropDelivery _ =>
    simp only [stepDelivery] at hs
    repeat' split at hs
    all_goals first
      | cases hs
        done
      | rw [Option.some.injEq] at hs
        first
          | exact hs ▸ (Fewer.refl s).setDelivery d _
          | exact hs ▸ (Fewer.refl s).leave d _
  | begin _ _ | register _ | endRejected _ | setResultCallback _ _ _ | done _ | cancel _
  | consumed _ _ | waited _ _ | received _ _ | abandon _ | complete _ | lockWrite _
  | endReturned _ | finish _ | drop _ | rotateShard _ _ => cases hs

theorem step_fewer {a : Action} (hs : step cfg s a = some t)
    (ha : ∀ r message callback, a ≠ .setResultCallback r message callback) : Fewer s t := by
  unfold step at hs
  cases a with
  | rotateShard i order =>
    cases hs
    exact Fewer.refl s
  | begin _ _ | register _ | endRejected _ | setResultCallback _ _ _ | done _ | cancel _
  | consumed _ _ | waited _ _ | received _ _ | abandon _ | complete _ | lockWrite _
  | endReturned _ | finish _ | drop _ => exact stepRequest_fewer hs ha
  | deliver _ _ | lookup _ | lockRead _ | late _ | checkClosing _ | checkPending _ | identified _ _
  | called _ _ | dropDelivery _ => exact stepDelivery_fewer hs

/-- A registration. The callback is a new one. -/
theorem step_setResultCallback {r callback : ℕ} {message : String}
    (hs : step cfg s (.setResultCallback r message callback) = some t) :
    s.owner callback = none ∧ t.deliveries = s.deliveries ∧
    ∀ r' message', ¬ (r' = r ∧ message' = message) →
      registered t r' message' = registered s r' message' := by
  simp only [step, stepRequest] at hs
  split_ifs at hs with hnew
  rw [Option.some.injEq] at hs
  subst hs
  refine ⟨hnew.2, rfl, fun r' message' hne => ?_⟩
  by_cases hr : r' = r
  · subst hr
    rw [registered_setRequest_self, registered]
    cases (s.requests r').callbacks with
    | none => rfl
    | some m => exact Finmap.lookup_insert_of_ne m fun hc => hne ⟨rfl, hc⟩
  · exact registered_setRequest_ne _ hr _ _

/-- A callback has returned `true`. -/
theorem step_called {d r callback : ℕ} {message : String}
    (hpc : (s.deliveries d).pc = .calling r message callback)
    (hs : step cfg s (.called d true) = some t) (r' : ℕ) (message' : String) :
    registered t r' message' =
      if r' = r ∧ message' = message then none else registered s r' message' := by
  simp only [step, stepDelivery, hpc, Option.some.injEq] at hs
  subst hs
  have hleave : ∀ u : State, registered (u.leave d r) r' message' = registered u r' message' := by
    intro u
    change registered (u.setRequest r _) r' message' = _
    by_cases hr : r' = r
    · subst hr
      exact registered_setRequest_self ..
    · exact registered_setRequest_ne u hr _ _
  rw [hleave]
  by_cases hr : r' = r
  · subst hr
    rw [registered_setRequest_self]
    refine (lookup_called (s.requests r').callbacks true message message').trans ?_
    simp only [true_and, registered]
  · rw [registered_setRequest_ne _ hr, if_neg fun hc => hr hc.1]

theorem setDelivery_self (s : State) (d : ℕ) (q : Delivery) :
    (s.setDelivery d q).deliveries d = q :=
  Function.update_self ..

/-- The next result with an id is handed to the callback that is registered for it. -/
theorem identified_calling {d r callback : ℕ} {message : String}
    (hreg : registered s r message = some callback)
    (hpc : (s.deliveries d).pc = .identifying r)
    (hs : step cfg s (.identified d message) = some t) :
    (t.deliveries d).pc = .calling r message callback := by
  rw [registered] at hreg
  simp only [step, stepDelivery, hpc, hreg, Option.some.injEq] at hs
  subst hs
  rw [setDelivery_self]

/-- A callback that begins to run is the one registered for its message id. -/
theorem calling_registered {a : Action} {d r callback : ℕ} {message : String}
    (hs : step cfg s a = some t) (hpc : (t.deliveries d).pc = .calling r message callback)
    (hnew : (s.deliveries d).pc ≠ .calling r message callback) :
    registered s r message = some callback := by
  have hident := (step_to_calling hs hpc).resolve_left hnew
  have hd : a.ofDelivery = some d := by
    by_contra hd
    rw [step_deliveries hs hd] at hpc
    exact hnew hpc
  cases a <;> simp only [Action.ofDelivery, Option.some.injEq, reduceCtorEq] at hd <;> subst hd <;>
    simp only [step, stepDelivery, hident, reduceCtorEq, Option.some.injEq] at hs
  case identified message' =>
    split at hs
    · rename_i found hfound
      rw [Option.some.injEq] at hs
      subst hs
      rw [setDelivery_self, DeliveryPc.calling.injEq] at hpc
      rw [registered, ← hpc.2.1, ← hpc.2.2]
      exact hfound
    · rw [Option.some.injEq] at hs
      subst hs
      rw [State.leave, setDelivery_self] at hpc
      cases hpc
  case dropDelivery =>
    subst hs
    rw [State.leave, setDelivery_self] at hpc
    cases hpc

/-! ## The invariant -/

/-- A callback that runs and will return `true` finds its own registration at its message id, or
none. -/
def Own (retires : ℕ → Bool) (s : State) : Prop :=
  ∀ d r message callback, (s.deliveries d).pc = .calling r message callback →
    retires d = true → ∀ callback', registered s r message = some callback' → callback' = callback

variable {retires : ℕ → Bool}

theorem Own.step {a : Action} (h : Own retires s) (hok : Unrivalled retires s a)
    (hs : ResultRouting.step cfg s a = some t) : Own retires t := by
  intro d r message callback hpc hd callback' hreg
  by_cases hset : ∃ r' message' c, a = .setResultCallback r' message' c
  · obtain ⟨r', message', c, rfl⟩ := hset
    obtain ⟨-, hdeliveries, hother⟩ := step_setResultCallback hs
    rw [hdeliveries] at hpc
    -- the new registration is for another id, or the condition is broken
    refine h d r message callback hpc hd callback' ?_
    rw [← hreg]
    refine (hother r message ?_).symm
    rintro ⟨rfl, rfl⟩
    rw [hok d callback hpc] at hd
    cases hd
  · have hfewer := step_fewer hs fun r' message' c hc => hset ⟨r', message', c, hc⟩
    have hold : registered s r message = some callback' := by
      rcases hfewer r message with heq | heq
      · rw [← heq, hreg]
      · rw [heq] at hreg
        cases hreg
    by_cases hwas : (s.deliveries d).pc = .calling r message callback
    · exact h d r message callback hwas hd callback' hold
    · rw [calling_registered hs hpc hwas, Option.some.injEq] at hold
      exact hold.symm

theorem own_of_reach (h : (routing cfg).Reach (Unrivalled retires) s) : Own retires s :=
  h.invariant (I := Own retires)
    (fun _ _ _ _ hpc => absurd hpc (by simp [routing, State.init, Delivery.absent]))
    fun _ _ _ hown hok hs => hown.step hok hs

/-! ## Main result -/

/-- **A result callback retires itself.** In every run in which nothing is registered for a message
id while a callback of the id runs that returns `true`, such a callback leaves every registration
but its own in place, for the next result. And this is exact: a registration that is made while a
callback runs is gone when that callback returns `true`. -/
theorem callback_retires_itself (h : (routing cfg).Reach (Unrivalled retires) s) :
    (∀ d r message callback, (s.deliveries d).pc = .calling r message callback →
      ∀ t, Unrivalled retires s (.called d true) → step cfg s (.called d true) = some t →
        Spares cfg s t r message callback) ∧
    ∀ d r message callback, (s.deliveries d).pc = .calling r message callback →
      ∀ new t, step cfg s (.setResultCallback r message new) = some t →
        registered t r message = some new →
        ∃ u, step cfg t (.called d true) = some u ∧ ¬ Spares cfg t u r message callback := by
  constructor
  · intro d r message callback hpc t hd hs r' message' callback' hreg hother
    have hkept : registered t r' message' = some callback' := by
      rw [step_called hpc hs, if_neg, hreg]
      rintro ⟨rfl, rfl⟩
      exact hother ⟨rfl, rfl, own_of_reach h d _ _ callback hpc hd.symm callback' hreg⟩
    exact ⟨hkept, fun d' u hident hstep => identified_calling hkept hident hstep⟩
  · intro d r message callback hpc new t hset hnew
    obtain ⟨hfresh, hdeliveries, -⟩ := step_setResultCallback hset
    have howner := (callback_within_request cfg s h.reachable d r callback message hpc).2.2.1
    have hpc' : (t.deliveries d).pc = .calling r message callback := by rw [hdeliveries, hpc]
    have hcalled : ∃ u, step cfg t (.called d true) = some u := by
      simp only [step, stepDelivery, hpc']
      exact ⟨_, rfl⟩
    obtain ⟨u, hu⟩ := hcalled
    refine ⟨u, hu, fun hspares => ?_⟩
    have hne : new ≠ callback := by
      rintro rfl
      rw [hfresh] at howner
      cases howner
    have hstays := (hspares r message new hnew fun hc => hne hc.2.2).1
    rw [step_called hpc' hu, if_pos ⟨rfl, rfl⟩] at hstays
    cases hstays

/-- Only the callback of the delivery `1` returns `true`. -/
def first (d : ℕ) : Bool := d == 1

/-- `Unrivalled first`, as a check. -/
def unrivalled (s : State) : Action → Bool
  | .called d remove => remove == first d
  | .setResultCallback r message _ =>
    match (s.deliveries 1).pc with
    | .calling r' message' _ => !(r' == r && message' == message)
    | _ => true
  | _ => true

theorem unrivalled_iff {a : Action} (h : unrivalled s a = true) : Unrivalled first s a := by
  cases a with
  | called d remove => exact beq_iff_eq.1 h
  | setResultCallback r message new =>
    intro d callback hpc
    by_contra hd
    have hd : d = 1 := by simpa [first] using hd
    subst hd
    simp [unrivalled, hpc] at h
  | _ => trivial

/-- A request registers two callbacks, and a result for one of them arrives. -/
def arriving (d : ℕ) : List Action :=
  [.begin 0 "a", .register 0, .setResultCallback 0 "m" 7, .setResultCallback 0 "n" 8,
    .deliver d (some "a"), .lookup d, .lockRead d, .checkPending d, .identified d "m"]

theorem arriving_runs :
    (((routing (withResult .http)).restrict (unrivalled · ·)).run State.init (arriving 1)).isSome := by
  decide +kernel

/-- The callback that has run is gone, the other one is not. -/
theorem callback_retires_itself_arriving :
    ∃ s t, (routing (withResult .http)).Reach (Unrivalled first) s ∧
      step (withResult .http) s (.called 1 true) = some t ∧
      registered t 0 "m" = none ∧ registered t 0 "n" = some 8 ∧
      Spares (withResult .http) s t 0 "m" 7 := by
  have h := (System.reachable_get arriving_runs).reach.mono fun _ _ => unrivalled_iff
  have hpc : (((((routing (withResult .http)).restrict (unrivalled · ·)).run State.init
      (arriving 1)).get arriving_runs).deliveries 1).pc = .calling 0 "m" 7 := by decide +kernel
  exact ⟨_, _, h, rfl, by decide +kernel, by decide +kernel,
    (callback_retires_itself h).1 1 0 "m" 7 hpc _ rfl rfl⟩

/-! ### A registration that gets lost -/

/-- A second callback is registered for the id while the first one runs. -/
def replaced (source : Source) : List Action :=
  [.begin 0 "a", .register 0, .setResultCallback 0 "m" 7, .deliver 1 (some "a"), .lookup 1,
    .lockRead 1] ++ (if source = .grpc then [.checkClosing 1] else []) ++
    [.checkPending 1, .identified 1 "m", .setResultCallback 0 "m" 8]

theorem replaced_runs (source : Source) :
    ((routing (withResult source)).run State.init (replaced source)).isSome := by
  cases source <;> decide +kernel

theorem replaced_calling (source : Source) :
    let s := ((routing (withResult source)).run State.init (replaced source)).get
      (replaced_runs source)
    (s.deliveries 1).pc = .calling 0 "m" 7 ∧ registered s 0 "m" = some 8 := by
  cases source <;> decide +kernel

/-- **A registration gets lost**, in each of the four sources: the first callback returns `true`
after the second one was registered. -/
theorem callback_retires_another :
    ¬ ∃ source, ∀ s, (routing (withResult source)).Reachable s →
      ∀ d r message callback t, (s.deliveries d).pc = .calling r message callback →
        step (withResult source) s (.called d true) = some t →
        Spares (withResult source) s t r message callback := by
  rintro ⟨source, h⟩
  obtain ⟨hpc, hreg⟩ := replaced_calling source
  have hstep : ∃ t, step (withResult source) (((routing (withResult source)).run State.init
      (replaced source)).get (replaced_runs source)) (.called 1 true) = some t := by
    simp only [step, stepDelivery, hpc]
    exact ⟨_, rfl⟩
  obtain ⟨t, ht⟩ := hstep
  have hstays := (h _ (System.reachable_get (replaced_runs source)) 1 0 "m" 7 t hpc ht 0 "m" 8 hreg
    (by decide)).1
  rw [step_called hpc ht, if_pos ⟨rfl, rfl⟩] at hstays
  cases hstays

end CallbackRetirement

end ServiceLib
