import ServiceLib.Transition

/-!
# The response of a unary gRPC request

Follows `src/datasource/grpc/nostreaming.rs`. The handler and the result callbacks of a request
share a `UnarySender`: a slot that is at once the check for a second response and the mailbox that
`NoStreamingEndpointConsumer::handle` takes the response from. `Notify` wakes it up.

**Theorem (`unary_single_assignment`).** As long as nothing is sent after the response was taken
out of the slot, at most one `send` is accepted, and a request that ends well returns the value of
each `send` that had succeeded before `finish`. This is exact: a `send` after that is accepted too.

**Theorem (`receive_woken`).** In every run, a `receive` that waits while there is a value has been
notified, or the `send` of the value is about to notify it.

The idea: slot and taken response together hold at most one value, the one of the only accepted
`send`. The slot alone does not say whether there was one.
-/

namespace ServiceLib

namespace UnarySender

/-! ## `tokio::sync::Notify` with one waiter -/

/-- The future of `notified()`: not there, in the list of waiters, taken off it by `notify_one`, or
completed by a permit. -/
inductive Waiter
  | absent
  | waiting
  | notified
  | complete
  deriving DecidableEq

structure Notify where
  permit : Bool
  waiter : Waiter
  deriving DecidableEq

namespace Notify

def new : Notify := ⟨false, .absent⟩

/-- `notified()` and `enable()`: a stored permit is used up at once. -/
def enable (n : Notify) : Notify := ⟨false, if n.permit then .complete else .waiting⟩

/-- `notify_one()`: the waiter, or a permit for the next one. -/
def notifyOne (n : Notify) : Notify :=
  if n.waiter = .waiting then { n with waiter := .notified } else { n with permit := true }

/-- Dropping the future. A notification it has not seen is passed on. -/
def dropWaiter (n : Notify) : Notify := ⟨n.permit || n.waiter = .notified, .absent⟩

/-- The future would complete. -/
def Ready (n : Notify) : Prop := n.waiter = .notified ∨ n.waiter = .complete

instance (n : Notify) : Decidable n.Ready := inferInstanceAs (Decidable (_ ∨ _))

theorem ready_notifyOne {n : Notify} (h : n.waiter ≠ .absent) : n.notifyOne.Ready := by
  unfold notifyOne Ready
  cases hw : n.waiter <;> simp_all

end Notify

/-! ## The parties -/

variable {V : Type} [Inhabited V]

/-- Where `handle` is. -/
inductive HandlePc (V : Type)
  | beginning
  | consuming
  /-- In `receive`, at the head of the loop. -/
  | looping
  /-- In `receive`, registered as a waiter. -/
  | checking
  /-- In `receive`, in the `select!`. -/
  | waiting
  | finishing (response : Option V) (result : Except String Unit)
  /-- `finish` has returned. -/
  | answering (response : Option V)
  | returned (result : Except String V)
  | dropped
  deriving DecidableEq

/-- Where a call of `send` is. -/
inductive SendPc (V : Type)
  | absent
  /-- The value is in the slot; `notify_one` is next. -/
  | stored (value : V)
  | ok (value : V)
  | refused (error : String)
  deriving DecidableEq

/-- The value of a call of `send` that was not refused. -/
def SendPc.accepted : SendPc V → Option V
  | .stored value | .ok value => some value
  | _ => none

/-- A request with its sender. Ghost: the value that was taken out of the slot, and the calls of
`send` that had returned `Ok` when `finish` returned. -/
structure State (V : Type) where
  slot : Option V
  notify : Notify
  cancelled : Bool
  handle : HandlePc V
  sends : ℕ → SendPc V
  taken : Option V
  early : ℕ → Bool

namespace State

def init : State V where
  slot := none
  notify := .new
  cancelled := false
  handle := .beginning
  sends := fun _ => .absent
  taken := none
  early := fun _ => false

/-- `UnarySender::take`, which leaves `handle` at `pc`. -/
def take (s : State V) (pc : HandlePc V) : State V :=
  { s with slot := none, taken := s.slot.or s.taken, handle := pc }

end State

inductive Action (V : Type)
  /-- `begin_owned` has returned. -/
  | began (result : Except String Unit)
  /-- `consume_owned` has returned, and `eof_owned` after a success. -/
  | consumed (result : Except String Unit)
  | enable
  | check
  /-- The `select!` takes the branch of the notification. -/
  | wake
  /-- The `select!` takes the branch of the context. -/
  | giveUp
  /-- `finish_owned` has returned what `end_request` made of the result. -/
  | finished (result : Except String Unit)
  | answer
  /-- The future of `handle` is dropped. -/
  | drop
  | cancel
  | send (i : ℕ) (value : V)
  | notifyOne (i : ℕ)

/-- `handle`'s own steps. -/
def stepHandle (hasResult : Bool) (s : State V) : Action V → Option (State V)
  | .began result =>
    match s.handle, result with
    | .beginning, .ok () => some { s with handle := .consuming }
    | .beginning, .error error => some { s with handle := .returned (.error error) }
    | _, _ => none
  | .consumed result =>
    match s.handle with
    | .consuming =>
      if result = .ok () ∧ hasResult then some { s with handle := .looping }
      else some { s with handle := .finishing none result }
    | _ => none
  | .enable =>
    match s.handle with
    | .looping => some { s with handle := .checking, notify := s.notify.enable }
    | _ => none
  | .check =>
    match s.handle, s.slot with
    | .checking, some value =>
      some { s.take (.finishing (some value) (.ok ())) with notify := s.notify.dropWaiter }
    | .checking, none => some (s.take .waiting)
    | _, _ => none
  | .wake =>
    match s.handle with
    | .waiting =>
      if s.notify.Ready then
        some { s with handle := .looping, notify := { s.notify with waiter := .absent } }
      else none
    | _ => none
  | .giveUp =>
    match s.handle, s.slot with
    | .waiting, some value =>
      if s.cancelled then
        some { s.take (.finishing (some value) (.ok ())) with notify := s.notify.dropWaiter }
      else none
    | .waiting, none =>
      if s.cancelled then
        some { s.take (.finishing none (.error "gRPC unary request context cancelled")) with
          notify := s.notify.dropWaiter }
      else none
    | _, _ => none
  | .finished result =>
    match s.handle with
    | .finishing response _ =>
      let early := fun i => match s.sends i with | .ok _ => true | _ => false
      match result with
      | .ok () => some { s with handle := .answering response, early := early }
      | .error error => some { s with handle := .returned (.error error), early := early }
    | _ => none
  | .answer =>
    match s.handle with
    | .answering (some value) => some { s with handle := .returned (.ok value) }
    | .answering none => some (s.take (.returned (.ok (s.slot.getD default))))
    | _ => none
  | .drop =>
    match s.handle with
    | .returned _ | .dropped => none
    | _ => some { s with handle := .dropped, notify := s.notify.dropWaiter }
  | .cancel => some { s with cancelled := true }
  | _ => none

/-- The steps of a `send`. -/
def stepSend (s : State V) : Action V → Option (State V)
  | .send i value =>
    match s.sends i, s.slot with
    | .absent, some _ => some { s with
        sends := Function.update s.sends i (.refused "gRPC unary result already sent") }
    | .absent, none => some { s with
        slot := some value
        sends := Function.update s.sends i (.stored value) }
    | _, _ => none
  | .notifyOne i =>
    match s.sends i with
    | .stored value => some { s with
        notify := s.notify.notifyOne
        sends := Function.update s.sends i (.ok value) }
    | _ => none
  | _ => none

def step (hasResult : Bool) (s : State V) (a : Action V) : Option (State V) :=
  match a with
  | .send _ _ | .notifyOne _ => stepSend s a
  | _ => stepHandle hasResult s a

/-- A unary request and everyone who has its sender. -/
def unary (V : Type) [Inhabited V] (hasResult : Bool) : System (State V) (Action V) :=
  ⟨State.init, step hasResult⟩

variable {hasResult : Bool} {s t : State V} {a : Action V}

/-! ## What a step does -/

/-- A step of `handle` leaves the calls of `send` alone, and the slot as it is or empty, with its
value taken. -/
structure Handles (s t : State V) : Prop where
  sends : t.sends = s.sends
  slot : (t.slot = s.slot ∧ t.taken = s.taken) ∨ (t.slot = none ∧ t.taken = s.slot.or s.taken)

theorem stepHandle_handles (hs : stepHandle hasResult s a = some t) : Handles s t := by
  cases a <;> simp only [stepHandle, reduceCtorEq] at hs <;> repeat' split at hs
  all_goals first
    | cases hs
      done
    | cases hs
      exact ⟨rfl, .inl ⟨rfl, rfl⟩⟩
    | cases hs
      exact ⟨rfl, .inr ⟨rfl, rfl⟩⟩

omit [Inhabited V] in
/-- A step of a `send`: it is refused, stores its value, or notifies. -/
theorem stepSend_cases (hs : stepSend s a = some t) :
    (∃ i value, a = .send i value ∧ s.sends i = .absent ∧ s.slot ≠ none ∧
      t = { s with
        sends := Function.update s.sends i (.refused "gRPC unary result already sent") }) ∨
    (∃ i value, a = .send i value ∧ s.sends i = .absent ∧ s.slot = none ∧
      t = { s with
        slot := some value
        sends := Function.update s.sends i (.stored value) }) ∨
    ∃ i value, a = .notifyOne i ∧ s.sends i = .stored value ∧
      t = { s with
        notify := s.notify.notifyOne
        sends := Function.update s.sends i (.ok value) } := by
  cases a <;> simp only [stepSend, reduceCtorEq] at hs
  case send i value =>
    split at hs
    · rename_i habsent hslot
      cases hs
      exact .inl ⟨i, value, rfl, habsent, by simp [hslot], rfl⟩
    · rename_i habsent hslot
      cases hs
      exact .inr (.inl ⟨i, value, rfl, habsent, hslot, rfl⟩)
    · cases hs
  case notifyOne i =>
    split at hs
    · rename_i value hstored
      cases hs
      exact .inr (.inr ⟨i, value, rfl, hstored, rfl⟩)
    · cases hs

/-- A call of `send` is a step of its own, everything else is one of `handle`. -/
theorem step_eq (hs : step hasResult s a = some t) :
    stepHandle hasResult s a = some t ∨ stepSend s a = some t := by
  cases a <;> first | exact .inl hs | exact .inr hs

/-- The values of the calls of `send` that were accepted. -/
def State.accepted (s : State V) (i : ℕ) : Option V := (s.sends i).accepted

omit [Inhabited V] in
/-- A `send` that changes its state without being accepted, or after that. -/
theorem accepted_update {i : ℕ} (pc : SendPc V) (h : pc.accepted = s.accepted i) (n : Notify)
    (slot : Option V) :
    State.accepted { s with slot := slot, notify := n, sends := Function.update s.sends i pc } =
      s.accepted := by
  funext j
  simp only [State.accepted]
  by_cases hj : j = i
  · subst hj
    rw [Function.update_self, h, State.accepted]
  · rw [Function.update_of_ne hj]

omit [Inhabited V] in
/-- A `send` that is accepted. -/
theorem accepted_stored (i : ℕ) (value : V) :
    State.accepted { s with
      slot := some value
      sends := Function.update s.sends i (.stored value) } =
      Function.update s.accepted i (some value) := by
  funext j
  simp only [State.accepted]
  by_cases hj : j = i
  · subst hj
    rw [Function.update_self, Function.update_self]
    rfl
  · rw [Function.update_of_ne hj, Function.update_of_ne hj, State.accepted]

/-! ## Nobody sleeps over a value -/

/-- `receive` is registered as a waiter when it looks into the slot and when it waits, and while it
waits over a value it has been notified or is about to be. -/
structure Watched (s : State V) : Prop where
  registered : s.handle = .checking ∨ s.handle = .waiting → s.notify.waiter ≠ .absent
  notified : s.handle = .waiting → s.slot ≠ none →
    s.notify.Ready ∨ ∃ i value, s.sends i = .stored value

theorem watched_init : Watched (State.init : State V) :=
  ⟨by simp [State.init], by simp [State.init]⟩

theorem Watched.stepHandle (h : Watched s) (hs : stepHandle hasResult s a = some t) :
    Watched t := by
  cases a with
  | cancel =>
    cases hs
    exact ⟨h.registered, h.notified⟩
  | enable =>
    simp only [UnarySender.stepHandle] at hs
    split at hs
    · cases hs
      refine ⟨fun _ => ?_, by simp⟩
      simp only [Notify.enable]
      split_ifs <;> simp
    · cases hs
  | check =>
    simp only [UnarySender.stepHandle] at hs
    split at hs
    · cases hs
      exact ⟨by simp [State.take], by simp [State.take]⟩
    · rename_i hpc hslot
      cases hs
      -- the slot was empty, so there is nothing to sleep over yet
      exact ⟨fun _ => h.registered (.inl hpc), fun _ hfull => absurd rfl hfull⟩
    · cases hs
  | _ =>
    simp only [UnarySender.stepHandle, reduceCtorEq] at hs
    repeat' split at hs
    all_goals first
      | cases hs
        done
      | cases hs
        exact ⟨by simp [State.take], by simp [State.take]⟩

omit [Inhabited V] in
theorem Watched.stepSend (h : Watched s) (hs : stepSend s a = some t) : Watched t := by
  obtain ⟨i, value, -, habsent, -, rfl⟩ | ⟨i, value, -, -, -, rfl⟩ | ⟨i, value, -, -, rfl⟩ :=
    stepSend_cases hs
  · refine ⟨h.registered, fun hpc hslot => (h.notified hpc hslot).imp_right ?_⟩
    rintro ⟨j, w, hj⟩
    refine ⟨j, w, ?_⟩
    have hne : j ≠ i := by
      rintro rfl
      rw [habsent] at hj
      cases hj
    exact (Function.update_of_ne hne ..).trans hj
  · exact ⟨h.registered, fun _ _ => .inr ⟨i, value, Function.update_self ..⟩⟩
  · have hready := fun hpc => Notify.ready_notifyOne (h.registered hpc)
    refine ⟨fun hpc => ?_, fun hpc _ => .inl (hready (.inr hpc))⟩
    rcases hready hpc with hw | hw <;> simp [hw]

theorem Watched.step (h : Watched s) (hs : step hasResult s a = some t) : Watched t :=
  (step_eq hs).elim h.stepHandle h.stepSend

variable (hasResult) in
/-- A notified `receive` gets what is in the slot. -/
theorem run_ready {value : V} (hpc : s.handle = .waiting) (hslot : s.slot = some value)
    (hready : s.notify.Ready) :
    ∃ t, (unary V hasResult).run s [.wake, .enable, .check] = some t ∧
      t.handle = .finishing (some value) (.ok ()) := by
  simp only [System.run, unary, UnarySender.step, UnarySender.stepHandle, hpc, if_pos hready,
    Option.bind_some, hslot]
  exact ⟨_, rfl, rfl⟩

/-- **No notification is lost.** In every run, a `receive` that waits while there is a value has
been notified, or the `send` of a value is about to notify it; with at most that one step of
another party, it gets the value. -/
theorem receive_woken (h : (unary V hasResult).Reachable s) (hpc : s.handle = .waiting) {value : V}
    (hslot : s.slot = some value) :
    (s.notify.Ready ∨ ∃ i w, s.sends i = .stored w) ∧
    ∃ before t, (before = [] ∨ ∃ i, before = [.notifyOne i]) ∧
      (unary V hasResult).run s (before ++ [.wake, .enable, .check]) = some t ∧
      t.handle = .finishing (some value) (.ok ()) := by
  have hwatched : Watched s := h.invariant watched_init fun _ _ _ hw hs => hw.step hs
  have hnotified := hwatched.notified hpc (by simp [hslot])
  refine ⟨hnotified, ?_⟩
  rcases hnotified with hready | ⟨i, w, hi⟩
  · obtain ⟨t, ht⟩ := run_ready hasResult hpc hslot hready
    exact ⟨[], t, .inl rfl, ht⟩
  · have hstep : (unary V hasResult).step s (.notifyOne i) = some { s with
        notify := s.notify.notifyOne
        sends := Function.update s.sends i (.ok w) } := by
      simp only [unary, UnarySender.step, UnarySender.stepSend, hi]
    obtain ⟨t, ht, hresult⟩ := run_ready (s := { s with
      notify := s.notify.notifyOne
      sends := Function.update s.sends i (.ok w) }) hasResult hpc hslot
      (Notify.ready_notifyOne (hwatched.registered (.inr hpc)))
    exact ⟨[.notifyOne i], t, .inr ⟨i, rfl⟩, System.run_trans (System.run_singleton hstep) ht,
      hresult⟩

/-! ## One value -/

/-- At most one `send` is accepted. -/
def State.Single (s : State V) : Prop :=
  ∀ i j, s.accepted i ≠ none → s.accepted j ≠ none → i = j

/-- Nothing is sent after the response was taken out of the slot. -/
def InTime (s : State V) : Action V → Prop
  | .send _ _ => s.taken = none
  | _ => True

/-- The slot and the taken response hold the value of the one accepted `send`, and nothing without
one. -/
structure Mailbox (s : State V) : Prop where
  one : s.slot = none ∨ s.taken = none
  holds : ∀ i value, s.accepted i = some value → s.slot.or s.taken = some value
  sent : ∀ value, s.slot.or s.taken = some value → ∃ i, s.accepted i = some value
  single : s.Single

omit [Inhabited V] in
theorem mailbox_init : Mailbox (State.init : State V) where
  one := .inl rfl
  holds := fun i value h => by cases h
  sent := fun value h => by cases h
  single := fun i j h => absurd rfl h

omit [Inhabited V] in
/-- Taking the value out of the slot moves it. -/
theorem Mailbox.handles (h : Mailbox s) (hs : Handles s t) : Mailbox t := by
  have haccepted : t.accepted = s.accepted := by
    funext i
    rw [State.accepted, hs.sends, State.accepted]
  have hheld : t.slot.or t.taken = s.slot.or s.taken := by
    rcases hs.slot with ⟨hslot, htaken⟩ | ⟨hslot, htaken⟩
    · rw [hslot, htaken]
    · rw [hslot, htaken, Option.none_or]
  refine ⟨?_, ?_, ?_, ?_⟩
  · rcases hs.slot with ⟨hslot, htaken⟩ | ⟨hslot, -⟩
    · rw [hslot, htaken]
      exact h.one
    · exact .inl hslot
  · rw [haccepted, hheld]
    exact h.holds
  · rw [haccepted, hheld]
    exact h.sent
  · rw [State.Single, haccepted]
    exact h.single

omit [Inhabited V] in
/-- A `send` into an empty slot, before anything was taken, is the first one. -/
theorem Mailbox.stepSend (h : Mailbox s) (hok : InTime s a) (hs : stepSend s a = some t) :
    Mailbox t := by
  obtain ⟨i, value, -, habsent, -, rfl⟩ | ⟨i, value, rfl, habsent, hslot, rfl⟩ |
    ⟨i, value, -, hstored, rfl⟩ := stepSend_cases hs
  · have haccepted := accepted_update (s := s) (i := i) (.refused "gRPC unary result already sent")
      (by rw [State.accepted, habsent]; rfl) s.notify s.slot
    exact ⟨h.one, haccepted ▸ h.holds, haccepted ▸ h.sent, by
      rw [State.Single, haccepted]
      exact h.single⟩
  · have hnone : ∀ j, s.accepted j = none := by
      intro j
      cases hj : s.accepted j with
      | none => rfl
      | some w =>
        have hheld := h.holds j w hj
        rw [hslot, Option.none_or, show s.taken = none from hok] at hheld
        cases hheld
    have haccepted := accepted_stored (s := s) i value
    have honly : ∀ j, Function.update s.accepted i (some value) j ≠ none → j = i := by
      intro j hj
      by_contra hne
      rw [Function.update_of_ne hne] at hj
      exact hj (hnone j)
    refine ⟨.inr hok, ?_, ?_, ?_⟩
    · rw [haccepted]
      intro j w hj
      have hji := honly j (by rw [hj]; simp)
      subst hji
      rw [Function.update_self] at hj
      exact hj
    · rw [haccepted]
      intro w hw
      exact ⟨i, (Function.update_self ..).trans hw⟩
    · rw [State.Single, haccepted]
      exact fun j k hj hk => (honly j hj).trans (honly k hk).symm
  · have haccepted := accepted_update (s := s) (i := i) (.ok value)
      (by rw [State.accepted, hstored]; rfl) s.notify.notifyOne s.slot
    exact ⟨h.one, haccepted ▸ h.holds, haccepted ▸ h.sent, by
      rw [State.Single, haccepted]
      exact h.single⟩

theorem Mailbox.step (h : Mailbox s) (hok : InTime s a) (hs : step hasResult s a = some t) :
    Mailbox t :=
  (step_eq hs).elim (fun hs => h.handles (stepHandle_handles hs)) (h.stepSend hok)

/-! ## The answer -/

/-- What `handle` has in hand is what was taken, and what it has answered is the value of every
`send` that had succeeded before `finish` returned. -/
def Answers (s : State V) : Prop :=
  match s.handle with
  | .finishing response _ => s.taken = response
  | .answering response => s.taken = response ∧ ∀ i, s.early i = true → s.accepted i ≠ none
  | .returned (.ok value) => ∀ i, s.early i = true → s.accepted i = some value
  | .returned (.error _) => True
  | .dropped => True
  | _ => s.taken = none

omit [Inhabited V] in
theorem answers_init : Answers (State.init : State V) := by
  simp [Answers, State.init]

theorem Answers.stepHandle (h : Answers s) (hm : Mailbox s)
    (hs : stepHandle hasResult s a = some t) : Answers t := by
  cases a with
  | cancel =>
    cases hs
    exact h
  | finished result =>
    simp only [UnarySender.stepHandle] at hs
    split at hs
    · rename_i response earlier hpc
      simp only [Answers, hpc] at h
      cases result with
      | ok _ =>
        cases hs
        refine ⟨h, fun i hi => ?_⟩
        dsimp only at hi
        simp only [State.accepted]
        split at hi
        · rename_i value hok
          simp [hok, SendPc.accepted]
        · cases hi
      | error _ =>
        cases hs
        trivial
    · cases hs
  | answer =>
    simp only [UnarySender.stepHandle] at hs
    split at hs
    · rename_i value hpc
      cases hs
      simp only [Answers, hpc] at h
      intro i hi
      obtain ⟨w, hw⟩ := Option.ne_none_iff_exists'.1 (h.2 i hi)
      have hheld := hm.holds i w hw
      have hslot : s.slot = none := hm.one.resolve_right (by rw [h.1]; simp)
      rw [hslot, h.1, Option.none_or] at hheld
      exact hw.trans hheld.symm
    · rename_i hpc
      cases hs
      simp only [Answers, hpc] at h
      intro i hi
      obtain ⟨w, hw⟩ := Option.ne_none_iff_exists'.1 (h.2 i hi)
      have hheld := hm.holds i w hw
      rw [h.1, Option.or_none] at hheld
      rw [hheld]
      exact hw
    · cases hs
  | _ =>
    simp only [UnarySender.stepHandle, reduceCtorEq] at hs
    repeat' split at hs
    all_goals first
      | cases hs
        done
      | cases hs
        simp_all [Answers, State.take]

omit [Inhabited V] in
/-- A step of a `send` leaves `handle` alone, and what was accepted before. -/
theorem stepSend_frame (hs : stepSend s a = some t) :
    t.handle = s.handle ∧ t.taken = s.taken ∧ t.early = s.early ∧
      ∀ i, s.accepted i ≠ none → t.accepted i = s.accepted i := by
  obtain ⟨i, value, -, habsent, -, rfl⟩ | ⟨i, value, -, habsent, -, rfl⟩ |
    ⟨i, value, -, hstored, rfl⟩ := stepSend_cases hs
  · refine ⟨rfl, rfl, rfl, fun j _ => ?_⟩
    exact congrFun (accepted_update _ (by rw [State.accepted, habsent]; rfl) s.notify s.slot) j
  · refine ⟨rfl, rfl, rfl, fun j hj => ?_⟩
    rw [accepted_stored]
    refine Function.update_of_ne ?_ ..
    rintro rfl
    rw [State.accepted, habsent] at hj
    exact hj rfl
  · refine ⟨rfl, rfl, rfl, fun j _ => ?_⟩
    exact congrFun (accepted_update _ (by rw [State.accepted, hstored]; rfl) _ s.slot) j

omit [Inhabited V] in
theorem Answers.stepSend (h : Answers s) (hs : stepSend s a = some t) : Answers t := by
  obtain ⟨hhandle, htaken, hearly, haccepted⟩ := stepSend_frame hs
  unfold Answers at h ⊢
  rw [hhandle, htaken, hearly]
  split at h
  · exact h
  · refine ⟨h.1, fun i hi => ?_⟩
    rw [haccepted i (h.2 i hi)]
    exact h.2 i hi
  · intro i hi
    rw [haccepted i (by rw [h i hi]; simp)]
    exact h i hi
  · trivial
  · trivial
  · exact h

theorem Answers.step (h : Answers s) (hm : Mailbox s) (hs : step hasResult s a = some t) :
    Answers t :=
  (step_eq hs).elim (h.stepHandle hm) h.stepSend

/-- The calls of `send` that had succeeded before `finish` returned are calls that succeeded. -/
theorem step_early (h : ∀ i, s.early i = true → ∃ value, s.sends i = .ok value)
    (hs : step hasResult s a = some t) (i : ℕ) (hi : t.early i = true) :
    ∃ value, t.sends i = .ok value := by
  rcases step_eq hs with hs | hs
  · rw [(stepHandle_handles hs).sends]
    cases a <;> simp only [stepHandle, reduceCtorEq] at hs <;> repeat' split at hs
    all_goals first
      | cases hs
        done
      | cases hs
        exact h i hi
      | cases hs
        dsimp only at hi
        split at hi
        · exact ⟨_, ‹_›⟩
        · cases hi
  · obtain ⟨value, hvalue⟩ := h i (by rw [← (stepSend_frame hs).2.2.1]; exact hi)
    refine ⟨value, ?_⟩
    obtain ⟨j, w, -, hold, -, rfl⟩ | ⟨j, w, -, hold, -, rfl⟩ | ⟨j, w, -, hold, rfl⟩ :=
      stepSend_cases hs
    all_goals
      refine (Function.update_of_ne ?_ ..).trans hvalue
      rintro rfl
      rw [hold] at hvalue
      cases hvalue

/-! ## Main result -/

/-- Two calls of `send` return `Ok` only if they are one. -/
def State.OnceOk (s : State V) : Prop :=
  ∀ i j value value', s.sends i = .ok value → s.sends j = .ok value' → i = j

/-- A request that has ended well has answered with the value of every `send` that returned `Ok`
before `finish` did. -/
def State.AnswersSent (s : State V) : Prop :=
  ∀ value i, s.handle = .returned (.ok value) → s.early i = true → s.sends i = .ok value

omit [Inhabited V] in
theorem State.Single.onceOk (h : s.Single) : s.OnceOk := by
  intro i j value value' hi hj
  exact h i j (by simp [State.accepted, hi, SendPc.accepted])
    (by simp [State.accepted, hj, SendPc.accepted])

/-- A `send` after the response was taken is accepted as a second one. -/
theorem not_single_of_late (hm : Mailbox s) (hs : step hasResult s a = some t)
    (hlate : ¬ InTime s a) : ¬ t.Single := by
  cases a with
  | send i value =>
    obtain ⟨w, hw⟩ := Option.ne_none_iff_exists'.1 hlate
    have hslot : s.slot = none := hm.one.resolve_right hlate
    obtain ⟨j, hj⟩ := hm.sent w (by rw [hslot, hw, Option.none_or])
    obtain ⟨i', v', ha, habsent, hne, rfl⟩ | ⟨i', v', ha, habsent, -, rfl⟩ | ⟨i', v', ha, -⟩ :=
      stepSend_cases (show stepSend s (.send i value) = some t from hs)
    · exact absurd hslot hne
    · cases ha
      have hij : j ≠ i := by
        rintro rfl
        rw [State.accepted, habsent] at hj
        cases hj
      intro hsingle
      refine hij (hsingle j i ?_ ?_)
      · rw [accepted_stored, Function.update_of_ne hij, hj]
        simp
      · rw [accepted_stored, Function.update_self]
        simp
    · cases ha
  | _ => exact absurd trivial hlate

/-- **Unary responses are single-assignment.** In every run in which nothing is sent after the
response was taken out of the slot:

* at most one `send` returns `Ok`;
* a request that has ended well has answered with the value of every `send` that returned `Ok`
  before `finish` did;
* a `receive` that waits while there is a value has been notified or is about to be.

And this is exact: one more step keeps at most one `send` accepted if and only if it meets the
condition. -/
theorem unary_single_assignment (h : (unary V hasResult).Reach InTime s) :
    s.OnceOk ∧ s.AnswersSent ∧
    (s.handle = .waiting → s.slot ≠ none → s.notify.Ready ∨ ∃ i w, s.sends i = .stored w) ∧
    ∀ a t, step hasResult s a = some t → (t.Single ↔ InTime s a) := by
  have hinv : (Mailbox s ∧ Answers s) ∧ ∀ i, s.early i = true → ∃ value, s.sends i = .ok value := by
    refine h.invariant (I := fun s => (Mailbox s ∧ Answers s) ∧
      ∀ i, s.early i = true → ∃ value, s.sends i = .ok value) ⟨⟨mailbox_init, answers_init⟩, ?_⟩ ?_
    · intro i hi
      cases hi
    · intro s a t hinv hok hs
      exact ⟨⟨hinv.1.1.step hok hs, hinv.1.2.step hinv.1.1 hs⟩, step_early hinv.2 hs⟩
  obtain ⟨⟨hm, hans⟩, hearly⟩ := hinv
  refine ⟨hm.single.onceOk, fun value i hpc hi => ?_, fun hpc hslot => ?_, fun a t hs => ?_⟩
  · simp only [Answers, hpc] at hans
    obtain ⟨w, hw⟩ := hearly i hi
    have hvalue := hans i hi
    rw [State.accepted, hw] at hvalue
    cases hvalue
    exact hw
  · obtain ⟨value, hvalue⟩ := Option.ne_none_iff_exists'.1 hslot
    exact (receive_woken h.reachable hpc hvalue).1
  · refine ⟨fun hsingle => ?_, fun hok => (hm.step hok hs).single⟩
    by_contra hlate
    exact not_single_of_late hm hs hlate hsingle

instance [DecidableEq V] (s : State V) : ∀ a, Decidable (InTime s a)
  | .send _ _ => inferInstanceAs (Decidable (s.taken = none))
  | .began _ | .consumed _ | .enable | .check | .wake | .giveUp | .finished _ | .answer | .drop
  | .cancel | .notifyOne _ => inferInstanceAs (Decidable True)

/-- `receive` waits; a value is sent, and a second one is refused. -/
def oneResponse : List (Action ℕ) :=
  [.began (.ok ()), .consumed (.ok ()), .enable, .check, .send 0 1, .send 1 2, .notifyOne 0, .wake,
    .enable, .check, .finished (.ok ()), .answer]

theorem oneResponse_runs :
    (((unary ℕ true).restrict InTime).run State.init oneResponse).isSome := by
  decide +kernel

theorem unary_single_assignment_oneResponse :
    ∃ s, (unary ℕ true).Reach InTime s ∧ s.sends 0 = .ok 1 ∧ s.early 0 = true ∧
      s.sends 1 = .refused "gRPC unary result already sent" ∧ s.handle = .returned (.ok 1) ∧
      s.OnceOk ∧ s.AnswersSent := by
  have h := (System.reachable_get oneResponse_runs).reach
  have hspec := unary_single_assignment h
  exact ⟨_, h, by decide +kernel, by decide +kernel, by decide +kernel, by decide +kernel, hspec.1,
    hspec.2.1⟩

/-- While `end_request` runs, the response is already taken, and a second value is sent. -/
def secondResponse : List (Action ℕ) :=
  [.began (.ok ()), .consumed (.ok ()), .send 0 1, .notifyOne 0, .enable, .check, .send 1 2,
    .notifyOne 1, .finished (.ok ()), .answer]

theorem secondResponse_runs : ((unary ℕ true).run State.init secondResponse).isSome := by
  decide +kernel

/-- **A second response is accepted, and dropped.** Both calls of `send` return `Ok`, and the
request answers with the first value only. -/
theorem second_response_lost :
    ¬ (∀ s, (unary ℕ true).Reachable s → s.OnceOk) ∧
      ¬ ∀ s, (unary ℕ true).Reachable s → s.AnswersSent := by
  have h := System.reachable_get secondResponse_runs
  constructor
  · intro hall
    have := hall _ h 0 1 1 2 (by decide +kernel) (by decide +kernel)
    cases this
  · intro hall
    have := hall _ h 1 1 (by decide +kernel) (by decide +kernel)
    revert this
    decide +kernel

end UnarySender

end ServiceLib
