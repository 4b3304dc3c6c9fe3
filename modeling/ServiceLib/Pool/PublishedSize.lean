import ServiceLib.Pool.ExecutorSlots
import ServiceLib.Runtime.Config

/-!
# The size of a pool and the published configuration

Follows `publish_runtime_config` in `src/runtime/environment/mod.rs` and `executors`, `start` and
`reload_config` in `src/runtime/pool/queuedpool.rs`, over the pool of `Pool/QueuedPool.lean`. A
publisher stores a configuration and then has the pool reload it: the pool reads the configuration
that is current by then, and sends what it has read. `start` reads and sends in the same way.

What the actor ends up with is the last number that was sent (`State.final`). It is the current one
if whoever sends last has read last, but reading and sending are two steps, and nothing orders those
of two publishers, or of a publisher and `start`.

`pool_size_converges`: as long as no outdated number is sent when no one is left to send the current
one, a pool at rest has the published size. If one is sent, the pool does not have it at rest before
another configuration is published.
-/

namespace ServiceLib

/-! ## The target of a pool -/

namespace QueuedPool

/-- The target that a command sets. -/
def Command.size : Command → Option ℕ
  | .start count | .resize count => some count
  | _ => none

/-- The actor has entered `run`. -/
def Actor.entered : Actor → Bool
  | .absent | .spawned => false
  | _ => true

/-- The target of the actor once it has received what is in the channel. -/
def State.final (s : State) : Option ℕ :=
  (s.channel.filterMap Command.size).getLast?.or
    (if s.actor.entered then some s.run.target else none)

variable {cfg : Config} {s t : State} {l : List (Item Entry)}

/-- Who knows of a stop knows it from the state. -/
def StopOk (s : State) : Prop :=
  s.run.stopped = true ∨ .stop ∈ s.channel ∨ (∃ i, s.stops i = .sending) → s.state = .stopped

theorem stopOk_init (cfg : Config) : StopOk (.init cfg) := by
  rintro (h | h | ⟨i, h⟩)
  · cases h
  · cases h
  · cases h

/-- As long as the pool is not stopped its channel is open. -/
theorem Ok.open (h : Ok cfg s l) (hst : StopOk s) (hn : s.state ≠ .stopped) :
    s.actor.open = true := by
  by_contra hc
  have hr := h.actor.retiring (by simpa using hc)
  exact hn (hst (Or.inl (h.core.run.retiring hr).1))

/-- What the loops of the actor do to the rest of the pool. -/
structure Iterated (s t : State) : Prop where
  target : t.run.target = s.run.target
  stopped : t.run.stopped = s.run.stopped
  state : t.state = s.state
  starts : t.starts = s.starts
  stops : t.stops = s.stops
  channel : t.channel = s.channel ∧ t.actor.entered = true ∨ t.channel = [] ∧ t.run.retiring = true

theorem Kept.iterated (h : Kept s t) : Iterated s (QueuedPool.endLoop (beginRetiring t)) := by
  have hb : (beginRetiring t).run.target = t.run.target ∧
      (beginRetiring t).run.stopped = t.run.stopped ∧ (beginRetiring t).state = t.state ∧
      (beginRetiring t).starts = t.starts ∧ (beginRetiring t).stops = t.stops ∧
      (beginRetiring t).channel = t.channel := by
    unfold beginRetiring
    split_ifs <;> exact ⟨rfl, rfl, rfl, rfl, rfl, rfl⟩
  obtain ⟨h₁, h₂, h₃, h₄, h₅, h₆⟩ := hb
  have htarget : t.run.target = s.run.target := by rw [h.flags]
  have hstopped : t.run.stopped = s.run.stopped := by rw [h.flags]
  have hrest : t.state = s.state ∧ t.starts = s.starts ∧ t.stops = s.stops ∧
      t.channel = s.channel := by
    rw [h.rest]
    exact ⟨rfl, rfl, rfl, rfl⟩
  unfold QueuedPool.endLoop
  split_ifs with hc
  · exact ⟨h₁.trans htarget, h₂.trans hstopped, h₃.trans hrest.1, h₄.trans hrest.2.1,
      h₅.trans hrest.2.2.1, Or.inr ⟨rfl, hc.1⟩⟩
  · exact ⟨h₁.trans htarget, h₂.trans hstopped, h₃.trans hrest.1, h₄.trans hrest.2.1,
      h₅.trans hrest.2.2.1, Or.inl ⟨h₆.trans hrest.2.2.2, rfl⟩⟩

theorem Core.iterated (h : Core cfg s l) (p : State) : Iterated s (orPanic p (QueuedPool.settle s)) := by
  have hcore : ∀ {u l}, Core cfg u l ∧ Kept s u → Core cfg u l := fun h => h.1
  obtain ⟨t, l', ht, ⟨-, hk⟩, -⟩ := settle_rule hcore
    (fun h _ hi _ => ⟨h.1.retire hi, h.2.trans ⟨rfl, rfl⟩⟩)
    (fun h ha _ => ⟨h.1.spawn ha.2, h.2.trans ⟨rfl, rfl⟩⟩)
    (fun h _ hi hq => ⟨h.1.dispatch hi hq, h.2.trans ⟨rfl, rfl⟩⟩) ⟨h, Kept.refl s⟩
  rw [ht]
  exact hk.iterated

theorem handle_fields {c : Command} (hs : handle cfg s (some c) = some t) :
    t.channel = s.channel ∧ t.state = s.state ∧ t.starts = s.starts ∧ t.stops = s.stops ∧
    (t.run.stopped = true → s.run.stopped = true ∨ c = .stop) ∧
    (s.run.stopped = false → t.run.target = c.size.getD s.run.target) := by
  cases c with
  | add context priority task =>
    simp only [handle] at hs
    split_ifs at hs
    · cases hs
      exact ⟨rfl, rfl, rfl, rfl, Or.inl, fun _ => rfl⟩
    · cases hs
      exact ⟨rfl, rfl, rfl, rfl, Or.inl, fun _ => rfl⟩
    · simp only [bind, Option.bind_eq_some_iff] at hs
      obtain ⟨queue, -, hs⟩ := hs
      cases hs
      exact ⟨rfl, rfl, rfl, rfl, Or.inl, fun _ => rfl⟩
  | start count | resize count =>
    simp only [handle] at hs
    split_ifs at hs with hstop
    · cases hs
      exact ⟨rfl, rfl, rfl, rfl, Or.inl, fun hn => absurd (hn.symm.trans hstop) Bool.false_ne_true⟩
    · cases hs
      exact ⟨rfl, rfl, rfl, rfl, Or.inl, fun _ => rfl⟩
  | ready w =>
    simp only [handle] at hs
    split_ifs at hs
    cases hs
    exact ⟨rfl, rfl, rfl, rfl, Or.inl, fun _ => rfl⟩
  | stop =>
    cases hs
    exact ⟨rfl, rfl, rfl, rfl, fun _ => Or.inr rfl, fun _ => rfl⟩

/-- What a step means for the target the actor will have. -/
def finalAfter (cfg : Config) (s : State) : Action → Option ℕ
  | .reloadConfig configured => some (executors cfg configured)
  | .stepStart i configured =>
    if s.starts i = .launched then some (executors cfg configured) else s.final
  | .enterRun configured => s.final.or (some (executors cfg configured))
  | _ => s.final

/-- A command that sets no target is sent. -/
theorem final_append {c : Command} (hc : c.size = none) (hch : t.channel = s.channel ++ [c])
    (ha : t.actor = s.actor) (hr : t.run = s.run) : t.final = s.final := by
  rw [State.final, State.final, hch, ha, hr, List.filterMap_append]
  simp [hc]

/-- A command that sets the target is sent. -/
theorem final_size {c : Command} {n : ℕ} (hc : c.size = some n)
    (hch : t.channel = s.channel ++ [c]) : t.final = some n := by
  rw [State.final, hch, List.filterMap_append]
  simp [hc]

theorem final_congr (hch : t.channel = s.channel) (ha : t.actor.entered = s.actor.entered)
    (hr : t.run.target = s.run.target) : t.final = s.final := by
  rw [State.final, State.final, hch, ha, hr]

/-- The actor receives a command. -/
theorem final_recv {c : Command} {channel : List Command} (hc : s.channel = c :: channel)
    (ha : s.actor.entered = true) (hch : t.channel = channel) (ha' : t.actor.entered = true)
    (hr : t.run.target = c.size.getD s.run.target) : t.final = s.final := by
  rw [State.final, State.final, hch, hc, ha, ha', hr]
  cases hsz : c.size with
  | none => simp [hsz]
  | some n =>
    rw [List.filterMap_cons_some hsz, List.getLast?_cons]
    cases hl : (channel.filterMap Command.size).getLast? <;> simp

theorem launch_frame (s : State) : (launch s).channel = s.channel ∧ (launch s).run = s.run ∧
    (launch s).state = s.state ∧ (launch s).starts = s.starts ∧ (launch s).stops = s.stops := by
  unfold launch
  split_ifs <;> exact ⟨rfl, rfl, rfl, rfl, rfl⟩

theorem Ok.launch_entered (h : Ok cfg s l) :
    (QueuedPool.launch s).actor.entered = s.actor.entered := by
  unfold QueuedPool.launch
  split_ifs with hl
  · rfl
  · have hact := h.actor
    unfold ActorOk at hact
    cases ha : s.actor <;> rw [ha] at hact
    case absent => rfl
    case select => exact absurd hact hl
    case panicked => exact hact.elim
    all_goals exact absurd hact.1 hl

/-- The steps of a `start` call. -/
inductive StartNext (state : Lifecycle) : StartPc → StartPc → Prop
  | claim : state = .created → StartNext state .called .claimed
  | refuse (result : RuntimeResult Unit) : StartNext state .called (.returned result)
  | launch : StartNext state .claimed .launched
  | send (result : RuntimeResult Unit) : StartNext state .launched (.returned result)

/-- What a step of the pool does to its target, its state and its `start` calls. -/
structure Frame (cfg : Config) (s : State) (a : Action) (t : State) : Prop where
  stop : StopOk t
  final : t.state ≠ .stopped → t.final = finalAfter cfg s a
  state : t.state = s.state ∨ t.state = .stopped ∨
    s.state = .created ∧ t.state = .started ∧ ∃ i, t.starts i = .claimed
  starts : ∀ i, t.starts i = s.starts i ∨ s.starts i = .idle ∧ t.starts i = .called ∨
    (∃ configured, a = .stepStart i configured) ∧ StartNext s.state (s.starts i) (t.starts i)

/-- A step that only moves other things. -/
theorem Frame.still {a : Action} (hst : StopOk s) (hf : finalAfter cfg s a = s.final)
    (hrun : t.run.stopped = s.run.stopped ∧ t.run.target = s.run.target)
    (hch : t.channel = s.channel) (ha : t.actor.entered = s.actor.entered)
    (hstate : t.state = s.state) (hstarts : t.starts = s.starts)
    (hstops : ∀ i, t.stops i = .sending → s.stops i = .sending) : Frame cfg s a t where
  stop := by
    unfold StopOk
    rw [hrun.1, hch, hstate]
    rintro (h | h | ⟨i, h⟩)
    · exact hst (Or.inl h)
    · exact hst (Or.inr (Or.inl h))
    · exact hst (Or.inr (Or.inr ⟨i, hstops i h⟩))
  final := fun _ => (final_congr hch ha hrun.2).trans hf.symm
  state := Or.inl hstate
  starts := fun i => Or.inl (by rw [hstarts])

/-- A command is sent that neither sets the target nor stops the pool. -/
theorem Frame.sent {a : Action} {c : Command} (hst : StopOk s)
    (hch : t.channel = s.channel ++ [c]) (hf : finalAfter cfg s a = s.final)
    (hc : c.size = none) (hns : c ≠ .stop) (hrun : t.run = s.run) (ha : t.actor = s.actor) (hstate : t.state = s.state)
    (hstarts : t.starts = s.starts) (hstops : t.stops = s.stops) : Frame cfg s a t where
  stop := by
    unfold StopOk
    rw [hrun, hch, hstops, hstate]
    rintro (h | h | h)
    · exact hst (Or.inl h)
    · rw [List.mem_append, List.mem_singleton] at h
      exact hst (Or.inr (Or.inl (h.resolve_right fun he => hns he.symm)))
    · exact hst (Or.inr (Or.inr h))
  final := fun _ => (final_append hc hch ha hrun).trans hf.symm
  state := Or.inl hstate
  starts := fun i => Or.inl (by rw [hstarts])

/-- An iteration of the actor, after what was polled is handled. -/
theorem Frame.iterated {a : Action} {u : State} {l' : List (Item Entry)} (hi : Iterated u t)
    (hst : StopOk u)
    (hf : u.state ≠ .stopped → t.channel = u.channel → t.actor.entered = true →
      t.run.target = u.run.target → t.final = finalAfter cfg s a)
    (hok : Ok cfg t l') (hstate : u.state = s.state) (hstarts : u.starts = s.starts) : Frame cfg s a t := by
  have hstop : StopOk t := by
    unfold StopOk
    rw [hi.stopped, hi.stops, hi.state]
    rintro (h | h | h)
    · exact hst (Or.inl h)
    · rcases hi.channel with ⟨hch, -⟩ | ⟨hch, -⟩
      · rw [hch] at h
        exact hst (Or.inr (Or.inl h))
      · rw [hch] at h
        cases h
    · exact hst (Or.inr (Or.inr h))
  refine ⟨hstop, fun hn => ?_, Or.inl (hi.state.trans hstate),
    fun i => Or.inl (by rw [hi.starts, hstarts])⟩
  rcases hi.channel with ⟨hch, hent⟩ | ⟨-, hret⟩
  · exact hf (hi.state ▸ hn) hch hent hi.target
  · exact absurd (hstop (Or.inl (hok.core.run.retiring hret).1)) hn

/-- `start` takes a step that sends nothing. -/
theorem Frame.starting {a : Action} {i : ℕ} {pc : StartPc} (hst : StopOk s)
    (hf : finalAfter cfg s a = s.final) (hrun : t.run = s.run) (hch : t.channel = s.channel)
    (ha : t.actor.entered = s.actor.entered) (hstops : t.stops = s.stops)
    (hstarts : t.starts = Function.update s.starts i pc)
    (hmove : s.starts i = .idle ∧ pc = .called ∨
      (∃ configured, a = .stepStart i configured) ∧ StartNext s.state (s.starts i) pc)
    (hstate : t.state = s.state ∨ s.state = .created ∧ t.state = .started ∧ pc = .claimed) :
    Frame cfg s a t := by
  have hi : t.starts i = pc := by rw [hstarts, Function.update_self]
  refine ⟨?_, fun _ => ?_, ?_, fun j => ?_⟩
  · unfold StopOk
    rw [hrun, hch, hstops]
    intro h
    rcases hstate with hstate | ⟨hcr, -⟩
    · exact hstate.trans (hst h)
    · exact absurd (hcr.symm.trans (hst h)) nofun
  · exact (final_congr hch ha (by rw [hrun])).trans hf.symm
  · rcases hstate with hstate | ⟨hcr, hstate, hpc⟩
    · exact Or.inl hstate
    · exact Or.inr (Or.inr ⟨hcr, hstate, i, hi.trans hpc⟩)
  · by_cases hj : j = i
    · subst hj
      rw [hi]
      exact Or.inr hmove
    · exact Or.inl (by rw [hstarts, Function.update_of_ne hj])

/-- The same with one `stop` call moved. -/
theorem sending_update {i : ℕ} {pc : StopPc} (hpc : pc ≠ .sending) (j : ℕ)
    (h : Function.update s.stops i pc j = .sending) : s.stops j = .sending := by
  by_cases hj : j = i
  · subst hj
    rw [Function.update_self] at h
    exact absurd h hpc
  · rwa [Function.update_of_ne hj] at h

theorem stepAdd_frame (h : Ok cfg s l) (hst : StopOk s) {i : ℕ}
    (hs : stepAdd cfg s i = some t) : Frame cfg s (.stepAdd i) t := by
  unfold stepAdd at hs
  cases hpc : (s.adds i).pc <;> simp only [hpc, reduceCtorEq] at hs
  case called | checked =>
    split_ifs at hs <;> cases hs <;>
      exact .still hst rfl ⟨rfl, rfl⟩ rfl rfl rfl rfl fun _ => id
  case loaded =>
    cases hs
    obtain ⟨h₁, h₂, h₃, h₄, h₅⟩ := launch_frame s
    exact .still hst rfl ⟨by change (launch s).run.stopped = _; rw [h₂],
      by change (launch s).run.target = _; rw [h₂]⟩ h₁ h.launch_entered h₃ h₄
      fun j hj => h₅ ▸ hj
  case launched =>
    cases hsend : send s (.add (s.adds i).context (s.adds i).priority i) with
    | some u =>
      rw [hsend] at hs
      cases hs
      obtain ⟨-, rfl⟩ := send_eq_some hsend
      exact .sent hst rfl rfl rfl nofun rfl rfl rfl rfl rfl
    | none =>
      rw [hsend] at hs
      cases hs
      exact .still hst rfl ⟨rfl, rfl⟩ rfl rfl rfl rfl fun _ => id
  case waiting =>
    cases hr : (s.adds i).reply <;> simp only [hr, reduceCtorEq, Option.some.injEq] at hs
    case sent | closed =>
      subst hs
      exact .still hst rfl ⟨rfl, rfl⟩ rfl rfl rfl rfl fun _ => id

/-- A command with a number is sent. -/
theorem Frame.sized {a : Action} {c : Command} {n : ℕ} {u : State} (hst : StopOk s)
    (hsend : send s c = some u) (hc : c.size = some n) (hf : finalAfter cfg s a = some n)
    (hrun : t.run = u.run) (hch : t.channel = u.channel) (hstate : t.state = u.state)
    (hstops : t.stops = u.stops)
    (hstarts : ∀ i, t.starts i = s.starts i ∨ s.starts i = .idle ∧ t.starts i = .called ∨
      (∃ configured, a = .stepStart i configured) ∧ StartNext s.state (s.starts i) (t.starts i)) :
    Frame cfg s a t := by
  obtain ⟨-, rfl⟩ := send_eq_some hsend
  have hns : c ≠ .stop := fun he => by
    rw [he] at hc
    cases hc
  refine ⟨?_, fun _ => (final_size hc hch).trans hf.symm, Or.inl hstate, hstarts⟩
  unfold StopOk
  rw [hrun, hch, hstops, hstate]
  rintro (h | h | h)
  · exact hst (Or.inl h)
  · rw [List.mem_append, List.mem_singleton] at h
    exact hst (Or.inr (Or.inl (h.resolve_right fun he => hns he.symm)))
  · exact hst (Or.inr (Or.inr h))

/-- The channel is closed, so the pool is stopped. -/
theorem Ok.stopped_of_send (h : Ok cfg s l) (hst : StopOk s) {c : Command}
    (hsend : QueuedPool.send s c = none) : s.state = .stopped := by
  by_contra hn
  rw [QueuedPool.send, if_pos (h.open hst hn)] at hsend
  cases hsend

theorem stepStart_frame (h : Ok cfg s l) (hst : StopOk s) {i : ℕ} {configured : Option ℕ}
    (hs : stepStart cfg s i configured = some t) : Frame cfg s (.stepStart i configured) t := by
  have hself : ∃ v, Action.stepStart i configured = .stepStart i v := ⟨_, rfl⟩
  unfold stepStart at hs
  cases hpc : s.starts i <;> simp only [hpc, reduceCtorEq] at hs
  case called =>
    have hf : finalAfter cfg s (.stepStart i configured) = s.final := by
      rw [finalAfter, hpc, if_neg nofun]
    cases hstate : s.state <;> simp only [hstate, Option.some.injEq] at hs <;> subst hs
    case created =>
      exact .starting hst hf rfl rfl rfl rfl rfl
        (Or.inr ⟨hself, by rw [hpc]; exact .claim hstate⟩) (Or.inr ⟨hstate, rfl, rfl⟩)
    case started | stopped =>
      exact .starting hst hf rfl rfl rfl rfl rfl (Or.inr ⟨hself, by rw [hpc]; exact .refuse _⟩)
        (Or.inl hstate.symm)
  case claimed =>
    cases hs
    obtain ⟨h₁, h₂, h₃, h₄, h₅⟩ := launch_frame s
    refine .starting hst (by rw [finalAfter, hpc, if_neg nofun]) h₂ h₁ h.launch_entered h₅ ?_
      (Or.inr ⟨hself, by rw [hpc]; exact .launch⟩) (Or.inl h₃)
    rfl
  case launched =>
    have hf : finalAfter cfg s (.stepStart i configured) = some (executors cfg configured) := by
      rw [finalAfter, hpc, if_pos rfl]
    have hmove : ∀ r j, Function.update s.starts i (.returned r) j = s.starts j ∨
        s.starts j = .idle ∧ Function.update s.starts i (.returned r) j = .called ∨
        (∃ v, Action.stepStart i configured = .stepStart j v) ∧
          StartNext s.state (s.starts j) (Function.update s.starts i (.returned r) j) := by
      intro r j
      by_cases hj : j = i
      · subst hj
        rw [Function.update_self, hpc]
        exact Or.inr (Or.inr ⟨⟨_, rfl⟩, .send r⟩)
      · exact Or.inl (Function.update_of_ne hj _ _)
    cases hsend : send s (.start (executors cfg configured)) with
    | some u =>
      simp only [hsend, Option.some.injEq] at hs
      subst hs
      exact .sized hst hsend rfl hf rfl rfl rfl rfl (hmove _)
    | none =>
      simp only [hsend, Option.some.injEq] at hs
      subst hs
      have hstopped := h.stopped_of_send hst hsend
      exact ⟨hst, fun hn => absurd hstopped hn, Or.inl rfl, hmove _⟩

theorem stepStop_frame (h : Ok cfg s l) (hst : StopOk s) {i : ℕ} (hs : stepStop s i = some t) :
    Frame cfg s (.stepStop i) t := by
  unfold stepStop at hs
  cases hpc : s.stops i <;> simp only [hpc, reduceCtorEq] at hs
  case called =>
    cases hs
    obtain ⟨h₁, h₂, h₃, h₄, h₅⟩ := launch_frame s
    exact .still hst rfl ⟨by change (launch s).run.stopped = _; rw [h₂],
      by change (launch s).run.target = _; rw [h₂]⟩ h₁ h.launch_entered h₃ h₄
      (sending_update nofun)
  case launched =>
    cases hs
    exact ⟨fun _ => rfl, fun hn => absurd rfl hn, Or.inr (Or.inl rfl), fun _ => Or.inl rfl⟩
  case sending =>
    cases hs
    -- the state was set before
    have hstopped : s.state = .stopped := hst (Or.inr (Or.inr ⟨i, hpc⟩))
    cases hsend : send s .stop with
    | some u =>
      obtain ⟨-, rfl⟩ := send_eq_some hsend
      exact ⟨fun _ => hstopped, fun hn => absurd hstopped hn, Or.inl rfl, fun _ => Or.inl rfl⟩
    | none => exact ⟨fun _ => hstopped, fun hn => absurd hstopped hn, Or.inl rfl, fun _ => Or.inl rfl⟩
  case waiting =>
    split_ifs at hs
    cases hs
    exact .still hst rfl ⟨rfl, rfl⟩ rfl rfl rfl rfl (sending_update nofun)

theorem stepWorker_frame (hst : StopOk s) {w : ℕ} (hs : stepWorker s w = some t) :
    Frame cfg s (.stepWorker w) t := by
  unfold stepWorker at hs
  cases hpc : (s.workers w).pc <;> simp only [hpc, reduceCtorEq] at hs
  case receiving =>
    cases hin : (s.workers w).inbox <;> simp only [hin] at hs
    case nil =>
      split_ifs at hs
      cases hs
      exact .still hst rfl ⟨rfl, rfl⟩ rfl rfl rfl rfl fun _ => id
    case cons =>
      cases hs
      exact .still hst rfl ⟨rfl, rfl⟩ rfl rfl rfl rfl fun _ => id
  case running =>
    cases hs
    exact .still hst rfl ⟨rfl, rfl⟩ rfl rfl rfl rfl fun _ => id
  case reporting =>
    cases hsend : send s (.ready w) with
    | some u =>
      simp only [hsend, Option.some.injEq] at hs
      subst hs
      obtain ⟨-, rfl⟩ := send_eq_some hsend
      exact .sent hst rfl rfl rfl nofun rfl rfl rfl rfl rfl
    | none =>
      simp only [hsend, Option.some.injEq] at hs
      subst hs
      exact .still hst rfl ⟨rfl, rfl⟩ rfl rfl rfl rfl fun _ => id

theorem pollCancellations_frame (h : Ok cfg s l) (hst : StopOk s) {k : Option ℕ} {d : Bool}
    (ha : s.actor = .select .cancellations d) (hs : pollCancellations s k d = some t) :
    Frame cfg s (.pollCancellations k) t := by
  have hent : s.actor.entered = true := by rw [ha]; rfl
  obtain ⟨l₁, hok⟩ := h.pollCancellations ha hs
  unfold pollCancellations at hs
  by_cases hdis : (d || s.run.cancellations.isEmpty) = true
  · rw [if_pos hdis] at hs
    split_ifs at hs
    cases hs
    exact .still hst rfl ⟨rfl, rfl⟩ rfl hent.symm rfl rfl fun _ => id
  rw [if_neg hdis] at hs
  cases k with
  | none =>
    simp only at hs
    split_ifs at hs
    cases hs
    exact .still hst rfl ⟨rfl, rfl⟩ rfl hent.symm rfl rfl fun _ => id
  | some k =>
    simp only [bind, Option.bind_eq_some_iff] at hs
    obtain ⟨c, -, hs⟩ := hs
    by_cases hab : c.aborted = true
    · rw [if_pos hab] at hs
      cases hs
      exact .still hst rfl ⟨rfl, rfl⟩ rfl hent.symm rfl rfl fun _ => id
    · rw [if_neg hab] at hs
      split_ifs at hs
      obtain ⟨queue, hpr, hq⟩ := PendingQueue.promote_represents h.core.run.queue c.id
      have hp := Waiting.promote_perm cfg.priority l h.core.run.queue.nodup c.id
      have hc := h.core.queue hq hp (s.run.cancellations.eraseIdx k) s.run.workers
      simp only [hpr, Option.bind_some, Option.some.injEq] at hs
      subst hs
      refine .iterated (hc.iterated s) (fun hx => hst hx) (fun _ hch hen htar => ?_) hok rfl rfl
      exact final_congr hch (hen.trans hent.symm) htar

theorem recv_frame (h : Ok cfg s l) (hst : StopOk s) {d : Bool} {c : Command}
    {channel : List Command} (ha : s.actor = .select .commands d) (hc : s.channel = c :: channel) :
    Frame cfg s .recv (orPanic { s with channel := channel }
      ((handle cfg { s with channel := channel } (some c)).bind settle)) := by
  have hent : s.actor.entered = true := by rw [ha]; rfl
  obtain ⟨l₁, hok⟩ := h.recv ha hc
  obtain ⟨u, l₂, hu, hcore, -⟩ := h.core.handle hc
  obtain ⟨hch, hstate, hstarts, hstops, hstopped, htarget⟩ := handle_fields hu
  rw [hu, Option.bind_some] at hok ⊢
  have hstu : StopOk u := by
    unfold StopOk
    rw [hch, hstate, hstops]
    rintro (hx | hx | hx)
    · rcases hstopped hx with hx | rfl
      · exact hst (Or.inl hx)
      · exact hst (Or.inr (Or.inl (by rw [hc]; exact List.mem_cons_self)))
    · exact hst (Or.inr (Or.inl (by rw [hc]; exact List.mem_cons_of_mem _ hx)))
    · exact hst (Or.inr (Or.inr hx))
  refine .iterated (hcore.iterated _) hstu (fun hn hcht hen htar => ?_) hok hstate hstarts
  have hrun : s.run.stopped = false := by
    by_contra hx
    exact hn (hstate.trans (hst (Or.inl (by simpa using hx))))
  exact final_recv hc hent (hcht.trans hch) hen (htar.trans (htarget hrun))

theorem step_frame (h : Ok cfg s l) (hst : StopOk s) {a : Action} (hs : step cfg s a = some t) :
    Frame cfg s a t := by
  cases a with
  | cancel c =>
    cases hs
    exact .still hst rfl ⟨rfl, rfl⟩ rfl rfl rfl rfl fun _ => id
  | addTask i context priority =>
    simp only [step] at hs
    split_ifs at hs
    cases hs
    exact .still hst rfl ⟨rfl, rfl⟩ rfl rfl rfl rfl fun _ => id
  | dropAdd i =>
    simp only [step] at hs
    split_ifs at hs
    cases hs
    exact .still hst rfl ⟨rfl, rfl⟩ rfl rfl rfl rfl fun _ => id
  | stepAdd i => exact stepAdd_frame h hst hs
  | start i =>
    simp only [step] at hs
    split_ifs at hs with hpc
    cases hs
    exact .starting hst rfl rfl rfl rfl rfl rfl (Or.inl ⟨hpc, rfl⟩) (Or.inl rfl)
  | stepStart i configured => exact stepStart_frame h hst hs
  | reloadConfig configured =>
    simp only [step, Option.some.injEq] at hs
    subst hs
    cases hsend : send s (.resize (executors cfg configured)) with
    | some u =>
      refine .sized hst hsend rfl rfl rfl rfl rfl rfl fun _ => Or.inl ?_
      obtain ⟨-, rfl⟩ := send_eq_some hsend
      rfl
    | none =>
      have hstopped := h.stopped_of_send hst hsend
      exact ⟨hst, fun hn => absurd hstopped hn, Or.inl rfl, fun _ => Or.inl rfl⟩
  | stop i =>
    simp only [step] at hs
    split_ifs at hs
    cases hs
    exact .still hst rfl ⟨rfl, rfl⟩ rfl rfl rfl rfl (sending_update (by simp))
  | stepStop i => exact stepStop_frame h hst hs
  | dropStop i =>
    simp only [step] at hs
    split_ifs at hs
    cases hs
    exact .still hst rfl ⟨rfl, rfl⟩ rfl rfl rfl rfl (sending_update (by simp))
  | enterRun configured =>
    simp only [step] at hs
    split_ifs at hs with ha
    cases hs
    refine ⟨?_, fun _ => ?_, Or.inl rfl, fun _ => Or.inl rfl⟩
    · rintro (hx | hx | hx)
      · cases hx
      · exact hst (Or.inr (Or.inl hx))
      · exact hst (Or.inr (Or.inr hx))
    · simp only [finalAfter, State.final, ha, Actor.entered, Run.new, if_true, Option.or_none,
        Bool.false_eq_true, if_false]
  | pollCancellations k =>
    simp only [step] at hs
    split at hs
    · next d ha => exact pollCancellations_frame h hst ha hs
    · cases hs
  | recv =>
    simp only [step] at hs
    split at hs
    · next d c channel ha hc =>
      split_ifs at hs
      cases hs
      exact recv_frame h hst ha hc
    · cases hs
  | recvPending | joinPending =>
    simp only [step] at hs
    split at hs
    · next d ha =>
      cases hs
      exact .still hst rfl ⟨rfl, rfl⟩ rfl (by rw [ha]; rfl) rfl rfl fun _ => id
    · cases hs
  | join w =>
    simp only [step] at hs
    split at hs
    · next d ha =>
      split_ifs at hs
      cases hs
      obtain ⟨l₁, hok⟩ := h.join ha w
      have hc := h.core.queue h.core.run.queue (List.Perm.refl _) s.run.cancellations
        (s.run.workers.erase w)
      refine .iterated (hc.iterated _) (fun hx => hst hx) (fun _ hch hen htar => ?_) hok rfl rfl
      exact final_congr hch (hen.trans (by rw [ha]; rfl)) htar
    · cases hs
  | publishDrained =>
    simp only [step] at hs
    split_ifs at hs with ha
    cases hs
    exact .still hst rfl ⟨rfl, rfl⟩ rfl (by rw [ha]; rfl) rfl rfl fun _ => id
  | stepWorker w => exact stepWorker_frame hst hs

end QueuedPool

/-! ## Publishers -/

namespace PublishedSize

open ServiceLib.Configuration (RuntimeConfig PoolConfig)
open QueuedPool (Config executors)

/-- Where a call of `publish_runtime_config` is. -/
inductive PublishPc
  | idle
  /-- The configuration is stored; `reload_config` is next. -/
  | stored
  /-- `executors` has read this; it is sent next. -/
  | loaded (configured : Option ℕ)
  | done

/-- `starts` is what a `start` call has read and not yet sent. -/
structure State where
  pool : QueuedPool.State
  published : RuntimeConfig
  publishers : ℕ → PublishPc
  starts : ℕ → Option (Option ℕ)

def State.init (cfg : Config) (config : RuntimeConfig) : State :=
  ⟨.init cfg, config, fun _ => .idle, fun _ => none⟩

/-- What a configuration says about the pool. -/
def configured (cfg : Config) (config : RuntimeConfig) : Option ℕ :=
  (config.poolsByName.lookup cfg.name).map PoolConfig.executorsCount

/-- The size of the pool in the published configuration. -/
def State.current (cfg : Config) (s : State) : ℕ := executors cfg (configured cfg s.published)

inductive Action
  /-- `self.runtime_config.store(config)` -/
  | publish (p : ℕ) (config : RuntimeConfig)
  | load (p : ℕ)
  | send (p : ℕ)
  /-- `start` reads the configuration, and sends what it has read. -/
  | loadStart (i : ℕ)
  | sendStart (i : ℕ)
  | enterRun
  /-- Any other step of the pool. -/
  | pool (x : QueuedPool.Action)

/-- The steps of the pool that do not read the configuration. -/
def free (s : State) : QueuedPool.Action → Bool
  | .reloadConfig _ | .enterRun _ => false
  | .stepStart i _ => s.pool.starts i ≠ .launched
  | _ => true

def step (cfg : Config) (s : State) : Action → Option State
  | .publish p config =>
    match s.publishers p with
    | .idle =>
      some { s with published := config, publishers := Function.update s.publishers p .stored }
    | _ => none
  | .load p =>
    match s.publishers p with
    | .stored => some { s with
        publishers := Function.update s.publishers p (.loaded (configured cfg s.published)) }
    | _ => none
  | .send p =>
    match s.publishers p with
    | .loaded v =>
      (QueuedPool.step cfg s.pool (.reloadConfig v)).map fun pool =>
        { s with pool := pool, publishers := Function.update s.publishers p .done }
    | _ => none
  | .loadStart i =>
    if s.pool.starts i = .launched ∧ s.starts i = none then
      some { s with starts := Function.update s.starts i (some (configured cfg s.published)) }
    else none
  | .sendStart i =>
    match s.starts i with
    | some v =>
      if s.pool.starts i = .launched then
        (QueuedPool.step cfg s.pool (.stepStart i v)).map fun pool => { s with pool := pool }
      else none
    | none => none
  | .enterRun =>
    (QueuedPool.step cfg s.pool (.enterRun (configured cfg s.published))).map fun pool =>
      { s with pool := pool }
  | .pool x =>
    if free s x then (QueuedPool.step cfg s.pool x).map fun pool => { s with pool := pool } else none

def system (cfg : Config) (config : RuntimeConfig) : System State Action :=
  ⟨.init cfg config, step cfg⟩

/-! ## Who still sends the current number -/

/-- The publisher has still to read, or has read the current number. -/
def PublishPc.timely (cfg : Config) (current : ℕ) : PublishPc → Bool
  | stored => true
  | loaded v => executors cfg v = current
  | _ => false

def State.publisherTimely (cfg : Config) (s : State) (p : ℕ) : Bool :=
  (s.publishers p).timely cfg (s.current cfg)

/-- The same for a `start` call. -/
def State.startTimely (cfg : Config) (s : State) (i : ℕ) : Bool :=
  match s.pool.starts i with
  | .claimed => true
  | .launched =>
    match s.starts i with
    | none => true
    | some v => executors cfg v = s.current cfg
  | _ => false

/-- Someone is going to send the current number. -/
def Pending (cfg : Config) (s : State) : Prop :=
  (∃ p, s.publisherTimely cfg p = true) ∨ ∃ i, s.startTimely cfg i = true

/-- When a number is sent to a pool that was started, it is the current one, or someone is still
going to send that. -/
def Timely (cfg : Config) (s : State) : Action → Prop
  | .send _ | .sendStart _ => s.pool.state = .started → Pending cfg s
  | _ => True

/-- Nothing is under way, and the pool was started and not stopped. -/
structure AtRest (s : State) : Prop where
  publishers : ∀ p, s.publishers p = .idle ∨ s.publishers p = .done
  starts : ∀ i, s.pool.starts i = .idle ∨ ∃ result, s.pool.starts i = .returned result
  started : s.pool.state = .started
  received : s.pool.channel = []

structure Inv (cfg : Config) (s : State) : Prop where
  pool : ∃ l, QueuedPool.Ok cfg s.pool l
  stop : QueuedPool.StopOk s.pool
  reads : ∀ i, s.starts i ≠ none →
    s.pool.starts i = .launched ∨ ∃ result, s.pool.starts i = .returned result

/-- The pool has the current size, or will get it. -/
def Settled (cfg : Config) (s : State) : Prop :=
  s.pool.state = .started → Pending cfg s ∨ s.pool.final = some (s.current cfg)

/-- The pool has another size, and no one is going to send the current one. -/
structure Outdated (cfg : Config) (s : State) : Prop where
  created : s.pool.state ≠ .created
  noOne : ¬ Pending cfg s
  final : s.pool.state = .started → ∃ n, s.pool.final = some n ∧ n ≠ s.current cfg

variable {cfg : Config} {config : RuntimeConfig} {s t : State}

theorem inv_init : Inv cfg (.init cfg config) :=
  ⟨⟨[], QueuedPool.ok_init cfg⟩, QueuedPool.stopOk_init cfg, fun _ h => absurd rfl h⟩

theorem settled_init : Settled cfg (.init cfg config) := nofun

/-- A pool at rest has received the last number. -/
theorem AtRest.final (h : AtRest s) :
    s.pool.final = if s.pool.actor.entered then some s.pool.run.target else none := by
  rw [QueuedPool.State.final, h.received]
  rfl

theorem AtRest.not_pending (h : AtRest s) : ¬ Pending cfg s := by
  rintro (⟨p, hp⟩ | ⟨i, hi⟩)
  · rw [State.publisherTimely] at hp
    rcases h.publishers p with hpc | hpc <;> rw [hpc] at hp <;> cases hp
  · rw [State.startTimely] at hi
    rcases h.starts i with hpc | ⟨r, hpc⟩ <;> rw [hpc] at hi <;> cases hi

/-! ## Every step -/

/-- The pool takes a step. -/
theorem Inv.move (h : Inv cfg s) {x : QueuedPool.Action} {pool : QueuedPool.State}
    (hs : QueuedPool.step cfg s.pool x = some pool) :
    Inv cfg { s with pool := pool } ∧ QueuedPool.Frame cfg s.pool x pool := by
  obtain ⟨l, hok⟩ := h.pool
  have hf := QueuedPool.step_frame hok h.stop hs
  refine ⟨⟨hok.step hs, hf.stop, fun i hi => ?_⟩, hf⟩
  rcases hf.starts i with hsame | ⟨hidle, -⟩ | ⟨-, hnext⟩
  · exact (hsame : pool.starts i = _) ▸ h.reads i hi
  · rcases h.reads i hi with hl | ⟨r, hl⟩ <;> rw [hidle] at hl <;> cases hl
  · rcases h.reads i hi with hl | ⟨r, hl⟩
    · rw [hl] at hnext
      generalize pool.starts i = pc at hnext
      cases hnext with
      | send r => exact Or.inr ⟨r, rfl⟩
    · rw [hl] at hnext
      cases hnext

theorem Inv.step (h : Inv cfg s) {a : Action} (hs : step cfg s a = some t) : Inv cfg t := by
  cases a with
  | publish p config | load p =>
    simp only [PublishedSize.step] at hs
    cases hpc : s.publishers p <;> simp only [hpc, reduceCtorEq] at hs
    cases hs
    exact ⟨h.pool, h.stop, h.reads⟩
  | send p =>
    simp only [PublishedSize.step] at hs
    cases hpc : s.publishers p <;> simp only [hpc, reduceCtorEq, Option.map_eq_some_iff] at hs
    obtain ⟨pool, hpool, rfl⟩ := hs
    have hm := (h.move hpool).1
    exact ⟨hm.pool, hm.stop, hm.reads⟩
  | loadStart i =>
    simp only [PublishedSize.step] at hs
    split_ifs at hs with hc
    cases hs
    refine ⟨h.pool, h.stop, fun j hj => ?_⟩
    by_cases hji : j = i
    · subst hji
      exact Or.inl hc.1
    · refine h.reads j ?_
      simpa only [Function.update_of_ne hji] using hj
  | sendStart i =>
    simp only [PublishedSize.step] at hs
    cases hv : s.starts i <;> simp only [hv, reduceCtorEq] at hs
    split_ifs at hs
    simp only [Option.map_eq_some_iff] at hs
    obtain ⟨pool, hpool, rfl⟩ := hs
    exact (h.move hpool).1
  | enterRun =>
    simp only [PublishedSize.step, Option.map_eq_some_iff] at hs
    obtain ⟨pool, hpool, rfl⟩ := hs
    exact (h.move hpool).1
  | pool x =>
    simp only [PublishedSize.step] at hs
    split_ifs at hs
    simp only [Option.map_eq_some_iff] at hs
    obtain ⟨pool, hpool, rfl⟩ := hs
    exact (h.move hpool).1

/-- A `start` call that is going to send the current number still is, or is the one that sends. -/
theorem Inv.startTimely_move (h : Inv cfg s) {x : QueuedPool.Action} {pool : QueuedPool.State}
    (hf : QueuedPool.Frame cfg s.pool x pool) {i : ℕ} (hi : s.startTimely cfg i = true)
    (hx : ∀ v, x = .stepStart i v → s.pool.starts i ≠ .launched) :
    State.startTimely cfg { s with pool := pool } i = true := by
  rcases hf.starts i with hsame | ⟨hidle, -⟩ | ⟨⟨v, hv⟩, hnext⟩
  · rw [State.startTimely] at hi ⊢
    rw [hsame]
    exact hi
  · rw [State.startTimely, hidle] at hi
    cases hi
  · have hnl := hx v hv
    cases hpc : s.pool.starts i with
    | claimed =>
      rw [hpc] at hnext
      have hnone : s.starts i = none := by
        by_contra hc
        rcases h.reads i hc with hl | ⟨r, hl⟩ <;> rw [hpc] at hl <;> cases hl
      generalize hpc' : pool.starts i = pc at hnext
      cases hnext with
      | launch => simp only [State.startTimely, hpc', hnone]
    | launched => exact absurd hpc hnl
    | idle | called | returned _ =>
      rw [State.startTimely, hpc] at hi
      cases hi

/-- Conversely, a call only comes to be going to by taking the pool from created to started. -/
theorem startTimely_back {x : QueuedPool.Action} {pool : QueuedPool.State}
    (hf : QueuedPool.Frame cfg s.pool x pool) (hc : s.pool.state ≠ .created) {i : ℕ}
    (hi : State.startTimely cfg { s with pool := pool } i = true) : s.startTimely cfg i = true := by
  rcases hf.starts i with hsame | ⟨-, hcalled⟩ | ⟨-, hnext⟩
  · rw [State.startTimely] at hi ⊢
    rw [hsame] at hi
    exact hi
  · rw [State.startTimely] at hi
    simp only [hcalled] at hi
    cases hi
  · generalize hpc : s.pool.starts i = pc at hnext
    generalize hpc' : pool.starts i = pc' at hnext
    cases hnext with
    | claim hcr => exact absurd hcr hc
    | launch => simp only [State.startTimely, hpc]
    | refuse r | send r =>
      simp only [State.startTimely, hpc'] at hi
      cases hi

/-- A step of the pool that sends no number. -/
theorem Settled.move (hi : Inv cfg s) (h : Settled cfg s) {x : QueuedPool.Action}
    {pool : QueuedPool.State} (hf : QueuedPool.Frame cfg s.pool x pool)
    (hx : ∀ i v, x = .stepStart i v → s.pool.starts i ≠ .launched)
    (hfin : s.pool.final = some (s.current cfg) →
      QueuedPool.finalAfter cfg s.pool x = some (s.current cfg)) :
    Settled cfg { s with pool := pool } := by
  intro hst
  rcases hf.state with hsame | hstop | ⟨-, -, i, hcl⟩
  · rcases h (hsame ▸ hst) with (hp | ⟨i, hti⟩) | hfinal
    · exact Or.inl (Or.inl hp)
    · exact Or.inl (Or.inr ⟨i, hi.startTimely_move hf hti (hx i)⟩)
    · refine Or.inr ((hf.final ?_).trans (hfin hfinal))
      intro hc
      exact absurd (hst.symm.trans hc) nofun
  · exact absurd (hst.symm.trans hstop) nofun
  · exact Or.inl (Or.inr ⟨i, by simp only [State.startTimely, hcl]⟩)

/-- Whoever sends when no one is going to send the current number sends another one. -/
theorem outdated_of_send {v : Option ℕ} {x : QueuedPool.Action} {pool : QueuedPool.State}
    {publishers : ℕ → PublishPc} (hf : QueuedPool.Frame cfg s.pool x pool)
    (hc : s.pool.state ≠ .created) (hn : ¬ Pending cfg s)
    (hp : ∀ p, (publishers p).timely cfg (s.current cfg) = true → s.publisherTimely cfg p = true)
    (hx : QueuedPool.finalAfter cfg s.pool x = some (executors cfg v))
    (hv : executors cfg v ≠ s.current cfg) :
    Outdated cfg { s with pool := pool, publishers := publishers } := by
  refine ⟨?_, ?_, fun hst => ⟨_, (hf.final ?_).trans hx, hv⟩⟩
  · rcases hf.state with hsame | hstop | ⟨hcr, -⟩
    · exact fun h => hc (hsame ▸ h)
    · exact fun h => absurd (hstop.symm.trans h) nofun
    · exact absurd hcr hc
  · rintro (⟨p, h⟩ | ⟨i, h⟩)
    · exact hn (Or.inl ⟨p, hp p h⟩)
    · exact hn (Or.inr ⟨i, startTimely_back hf hc h⟩)
  · exact fun h => absurd (hst.symm.trans h) nofun

/-- A publisher that has sent is done. -/
theorem timely_update {p : ℕ} (p' : ℕ)
    (h : (Function.update s.publishers p .done p').timely cfg (s.current cfg) = true) :
    s.publisherTimely cfg p' = true := by
  by_cases hp : p' = p
  · subst hp
    rw [Function.update_self] at h
    cases h
  · rwa [Function.update_of_ne hp] at h

theorem finalAfter_free {x : QueuedPool.Action} (hx : free s x = true) :
    QueuedPool.finalAfter cfg s.pool x = s.pool.final := by
  cases x <;> first | rfl | cases hx | skip
  case stepStart i v =>
    rw [free, decide_eq_true_eq] at hx
    rw [QueuedPool.finalAfter, if_neg hx]

/-- **One step.** -/
theorem Settled.next (hi : Inv cfg s) (h : Settled cfg s) {a : Action} (ha : Timely cfg s a)
    (hs : PublishedSize.step cfg s a = some t) : Settled cfg t := by
  cases a with
  | publish p config =>
    simp only [step] at hs
    cases hpc : s.publishers p <;> simp only [hpc, reduceCtorEq] at hs
    cases hs
    refine fun _ => Or.inl (Or.inl ⟨p, ?_⟩)
    simp only [State.publisherTimely, Function.update_self, PublishPc.timely]
  | load p =>
    simp only [step] at hs
    cases hpc : s.publishers p <;> simp only [hpc, reduceCtorEq] at hs
    cases hs
    refine fun _ => Or.inl (Or.inl ⟨p, ?_⟩)
    simp only [State.publisherTimely, Function.update_self, PublishPc.timely, State.current,
      decide_true]
  | send p =>
    simp only [step] at hs
    cases hpc : s.publishers p <;> simp only [hpc, reduceCtorEq, Option.map_eq_some_iff] at hs
    rename_i v
    obtain ⟨pool, hpool, rfl⟩ := hs
    have hf := (hi.move hpool).2
    intro hst
    have hns : pool.state ≠ .stopped := fun hc => absurd (hst.symm.trans hc) nofun
    by_cases hv : executors cfg v = s.current cfg
    · exact Or.inr ((hf.final hns).trans (by rw [QueuedPool.finalAfter, hv]; rfl))
    -- the number is outdated, so someone else is still going to send the current one
    rcases hf.state with hsame | hstop | ⟨-, -, i, hcl⟩
    · rcases ha (hsame ▸ hst) with ⟨q, hq⟩ | ⟨i, hti⟩
      · have hqp : q ≠ p := by
          rintro rfl
          simp [State.publisherTimely, hpc, PublishPc.timely, hv] at hq
        refine Or.inl (Or.inl ⟨q, ?_⟩)
        change (Function.update s.publishers p .done q).timely cfg (s.current cfg) = true
        rw [Function.update_of_ne hqp]
        exact hq
      · exact Or.inl (Or.inr ⟨i, hi.startTimely_move hf hti nofun⟩)
    · exact absurd hstop hns
    · exact Or.inl (Or.inr ⟨i, by simp only [State.startTimely, hcl]⟩)
  | loadStart i =>
    simp only [step] at hs
    split_ifs at hs with hc
    cases hs
    refine fun _ => Or.inl (Or.inr ⟨i, ?_⟩)
    simp only [State.startTimely, hc.1, Function.update_self, State.current, decide_true]
  | sendStart i =>
    simp only [step] at hs
    cases hv : s.starts i <;> simp only [hv, reduceCtorEq] at hs
    rename_i v
    split_ifs at hs with hl
    simp only [Option.map_eq_some_iff] at hs
    obtain ⟨pool, hpool, rfl⟩ := hs
    have hf := (hi.move hpool).2
    intro hst
    have hns : pool.state ≠ .stopped := fun hc => absurd (hst.symm.trans hc) nofun
    by_cases hcur : executors cfg v = s.current cfg
    · refine Or.inr ((hf.final hns).trans ?_)
      rw [QueuedPool.finalAfter, if_pos hl, hcur]
      rfl
    rcases hf.state with hsame | hstop | ⟨-, -, j, hcl⟩
    · rcases ha (hsame ▸ hst) with hq | ⟨j, htj⟩
      · exact Or.inl (Or.inl hq)
      · have hji : j ≠ i := by
          rintro rfl
          simp [State.startTimely, hl, hv, hcur] at htj
        refine Or.inl (Or.inr ⟨j, hi.startTimely_move hf htj fun w hw => ?_⟩)
        injection hw with hij
        exact absurd hij.symm hji
    · exact absurd hstop hns
    · exact Or.inl (Or.inr ⟨j, by simp only [State.startTimely, hcl]⟩)
  | enterRun =>
    simp only [step, Option.map_eq_some_iff] at hs
    obtain ⟨pool, hpool, rfl⟩ := hs
    exact h.move hi (hi.move hpool).2 nofun fun hfin => by rw [QueuedPool.finalAfter, hfin]; rfl
  | pool x =>
    simp only [step] at hs
    split_ifs at hs with hx
    simp only [Option.map_eq_some_iff] at hs
    obtain ⟨pool, hpool, rfl⟩ := hs
    refine h.move hi (hi.move hpool).2 (fun i v hxv => ?_) fun hfin => ?_
    · subst hxv
      simpa [free] using hx
    · rw [finalAfter_free hx, hfin]

def Action.publishes : Action → Bool
  | publish _ _ => true
  | _ => false

/-- A step of the pool that sends no number leaves it outdated. -/
theorem Outdated.move (h : Outdated cfg s) {x : QueuedPool.Action} {pool : QueuedPool.State}
    (hf : QueuedPool.Frame cfg s.pool x pool)
    (hfin : ∀ n, s.pool.final = some n → QueuedPool.finalAfter cfg s.pool x = some n) :
    Outdated cfg { s with pool := pool } := by
  refine ⟨?_, ?_, fun hst => ?_⟩
  · rcases hf.state with hsame | hstop | ⟨hcr, -⟩
    · exact fun hc => h.created (hsame ▸ hc)
    · exact fun hc => absurd (hstop.symm.trans hc) nofun
    · exact absurd hcr h.created
  · rintro (hp | ⟨i, hi⟩)
    · exact h.noOne (Or.inl hp)
    · exact h.noOne (Or.inr ⟨i, startTimely_back hf h.created hi⟩)
  · rcases hf.state with hsame | hstop | ⟨hcr, -⟩
    · obtain ⟨n, hn, hne⟩ := h.final (hsame ▸ hst)
      exact ⟨n, (hf.final fun hc => absurd (hst.symm.trans hc) nofun).trans (hfin n hn), hne⟩
    · exact absurd (hst.symm.trans hstop) nofun
    · exact absurd hcr h.created

/-- Only a new configuration helps. -/
theorem Outdated.next (hi : Inv cfg s) (h : Outdated cfg s) {a : Action}
    (ha : a.publishes = false) (hs : PublishedSize.step cfg s a = some t) : Outdated cfg t := by
  cases a with
  | publish p config => cases ha
  | load p =>
    simp only [step] at hs
    cases hpc : s.publishers p <;> simp only [hpc, reduceCtorEq] at hs
    exact absurd (Or.inl ⟨p, by simp [State.publisherTimely, hpc, PublishPc.timely]⟩) h.noOne
  | send p =>
    simp only [step] at hs
    cases hpc : s.publishers p <;> simp only [hpc, reduceCtorEq, Option.map_eq_some_iff] at hs
    rename_i v
    obtain ⟨pool, hpool, rfl⟩ := hs
    refine outdated_of_send (hi.move hpool).2 h.created h.noOne timely_update rfl fun hv => ?_
    exact h.noOne (Or.inl ⟨p, by simp [State.publisherTimely, hpc, PublishPc.timely, hv]⟩)
  | loadStart i =>
    simp only [step] at hs
    split_ifs at hs with hc
    exact absurd (Or.inr ⟨i, by simp [State.startTimely, hc.1, hc.2]⟩) h.noOne
  | sendStart i =>
    simp only [step] at hs
    cases hv : s.starts i <;> simp only [hv, reduceCtorEq] at hs
    rename_i v
    split_ifs at hs with hl
    simp only [Option.map_eq_some_iff] at hs
    obtain ⟨pool, hpool, rfl⟩ := hs
    refine outdated_of_send (v := v) (hi.move hpool).2 h.created h.noOne (fun _ hp => hp) ?_
      fun hcur => ?_
    · rw [QueuedPool.finalAfter, if_pos hl]
    · exact h.noOne (Or.inr ⟨i, by simp [State.startTimely, hl, hv, hcur]⟩)
  | enterRun =>
    simp only [step, Option.map_eq_some_iff] at hs
    obtain ⟨pool, hpool, rfl⟩ := hs
    exact h.move (hi.move hpool).2 fun n hn => by rw [QueuedPool.finalAfter, hn]; rfl
  | pool x =>
    simp only [step] at hs
    split_ifs at hs with hx
    simp only [Option.map_eq_some_iff] at hs
    obtain ⟨pool, hpool, rfl⟩ := hs
    exact h.move (hi.move hpool).2 fun n hn => by rw [finalAfter_free hx, hn]

/-- A step that is not timely leaves the pool outdated. -/
theorem outdated_of_not_timely (hi : Inv cfg s) {a : Action} (ha : ¬ Timely cfg s a)
    (hs : step cfg s a = some t) : Outdated cfg t := by
  cases a with
  | publish _ _ | load _ | loadStart _ | enterRun | pool _ => exact absurd trivial ha
  | send p =>
    simp only [Timely, Classical.not_imp] at ha
    simp only [step] at hs
    cases hpc : s.publishers p <;> simp only [hpc, reduceCtorEq, Option.map_eq_some_iff] at hs
    obtain ⟨pool, hpool, rfl⟩ := hs
    refine outdated_of_send (hi.move hpool).2 (by rw [ha.1]; nofun) ha.2 timely_update rfl
      fun hv => ?_
    exact ha.2 (Or.inl ⟨p, by simp [State.publisherTimely, hpc, PublishPc.timely, hv]⟩)
  | sendStart i =>
    simp only [Timely, Classical.not_imp] at ha
    simp only [step] at hs
    cases hv : s.starts i <;> simp only [hv, reduceCtorEq] at hs
    rename_i v
    split_ifs at hs with hl
    simp only [Option.map_eq_some_iff] at hs
    obtain ⟨pool, hpool, rfl⟩ := hs
    refine outdated_of_send (v := v) (hi.move hpool).2 (by rw [ha.1]; nofun) ha.2 (fun _ hp => hp)
      ?_ fun hcur => ?_
    · rw [QueuedPool.finalAfter, if_pos hl]
    · exact ha.2 (Or.inr ⟨i, by simp [State.startTimely, hl, hv, hcur]⟩)

/-! ## The result -/

/-- A pool at rest has the published size. -/
def Converged (cfg : Config) (s : State) : Prop :=
  AtRest s → s.pool.run.target = s.current cfg

theorem Settled.converged (h : Settled cfg s) : Converged cfg s := by
  intro hr
  have hfin := (h hr.started).resolve_left hr.not_pending
  rw [hr.final] at hfin
  split_ifs at hfin
  exact Option.some.inj hfin

theorem Outdated.not_converged (h : Outdated cfg s) (hr : AtRest s) :
    s.pool.run.target ≠ s.current cfg := by
  obtain ⟨n, hn, hne⟩ := h.final hr.started
  rw [hr.final] at hn
  split_ifs at hn
  exact Option.some.inj hn ▸ hne

/-- **The size of a pool converges** to the published one, as long as every number that is sent is
the current one, or someone is still going to send that. After a number for which this fails the
pool does not come to rest with the published size before another configuration is published. -/
theorem pool_size_converges (cfg : Config) (config : RuntimeConfig) (s : State)
    (h : (system cfg config).Reach (Timely cfg) s) :
    Converged cfg s ∧ ∀ a t, step cfg s a = some t → ¬ Timely cfg s a →
      ∀ as u, (∀ b ∈ as, b.publishes = false) → (system cfg config).run t as = some u →
        AtRest u → u.pool.run.target ≠ u.current cfg := by
  have hinv : Inv cfg s ∧ Settled cfg s :=
    System.Reach.invariant (I := fun s => Inv cfg s ∧ Settled cfg s) ⟨inv_init, settled_init⟩
      (fun _ _ _ hi ha hs => ⟨hi.1.step hs, hi.2.next hi.1 ha hs⟩) h
  refine ⟨hinv.2.converged, fun a t hs ha as u has hr hrest => ?_⟩
  have hout : ∀ (as : List Action) (v : State), Inv cfg v → Outdated cfg v →
      (∀ b ∈ as, b.publishes = false) → (system cfg config).run v as = some u →
      Outdated cfg u := by
    intro as
    induction as with
    | nil =>
      intro v _ hv _ hr
      cases hr
      exact hv
    | cons b as ih =>
      intro v hiv hv has hr
      simp only [System.run, Option.bind_eq_some_iff] at hr
      obtain ⟨w, hw, hr⟩ := hr
      exact ih w (hiv.step hw) (hv.next hiv (has b List.mem_cons_self) hw)
        (fun c hc => has c (List.mem_cons_of_mem _ hc)) hr
  exact (hout as t (hinv.1.step hs) (outdated_of_not_timely hinv.1 ha hs) has hr).not_converged hrest

/-- A FIFO pool. -/
def onePool : Config := ⟨"pool", false, 1, ⟨1, Nat.one_pos⟩⟩

/-- A configuration with `count` executors for it. -/
def sized (count : ℕ) : RuntimeConfig :=
  { RuntimeConfig.withDefaultCallSemantics .functionCall with
    poolsByName := Finmap.singleton "pool" ⟨"pool", count, 0⟩ }

def startPool : List Action :=
  [.pool (.start 0), .pool (.stepStart 0 none), .pool (.stepStart 0 none), .loadStart 0,
    .sendStart 0, .enterRun, .pool (.pollCancellations none), .pool .recv]

/-- Two publishers read what they have stored, and send it in the opposite order. -/
def crossing : List Action :=
  startPool ++ [.publish 0 (sized 2), .load 0, .publish 1 (sized 3), .load 1, .send 1, .send 0,
    .pool (.pollCancellations none), .pool .recv, .pool (.pollCancellations none), .pool .recv]

theorem crossing_runs :
    ((system onePool (sized 1)).run (.init onePool (sized 1)) crossing).isSome := by
  decide +kernel

/-- The pool is left with two executors, where three are published. -/
theorem crossing_not_converged :
    ∃ s, (system onePool (sized 1)).Reachable s ∧ ¬ Converged onePool s := by
  refine ⟨_, System.reachable_get (S := system onePool (sized 1)) crossing_runs, fun h => ?_⟩
  have hrest : AtRest (((system onePool (sized 1)).run (.init onePool (sized 1)) crossing).get
      crossing_runs) := by
    refine ⟨fun p => ?_, fun i => ?_, by decide +kernel, by decide +kernel⟩
    · match p with
      | 0 => exact Or.inr rfl
      | 1 => exact Or.inr rfl
      | p + 2 => exact Or.inl rfl
    · match i with
      | 0 => exact Or.inr ⟨.ok (), rfl⟩
      | i + 1 => exact Or.inl rfl
  exact absurd (h hrest) (by decide +kernel)

/-- Whoever sends has read the current configuration. -/
def upToDate (cfg : Config) (s : State) : Action → Bool
  | .send p => s.publisherTimely cfg p
  | .sendStart i => s.startTimely cfg i
  | _ => true

theorem timely_of_upToDate (cfg : Config) (s : State) (a : Action) (h : upToDate cfg s a = true) :
    Timely cfg s a := by
  cases a with
  | send p => exact fun _ => Or.inl ⟨p, h⟩
  | sendStart i => exact fun _ => Or.inr ⟨i, h⟩
  | _ => trivial

/-- The same two publishers, one after the other. -/
def inOrder : List Action :=
  startPool ++ [.publish 0 (sized 2), .load 0, .send 0, .publish 1 (sized 3), .load 1, .send 1,
    .pool (.pollCancellations none), .pool .recv, .pool (.pollCancellations none), .pool .recv]

theorem inOrder_runs : (((system onePool (sized 1)).restrict fun s a => upToDate onePool s a = true).run
    (.init onePool (sized 1)) inOrder).isSome := by
  decide +kernel

theorem pool_size_converges_inOrder :
    ∃ s, (system onePool (sized 1)).Reach (Timely onePool) s ∧ AtRest s ∧
      s.current onePool = 3 ∧ s.pool.run.target = 3 := by
  have hr := System.reachable_get
    (S := (system onePool (sized 1)).restrict fun s a => upToDate onePool s a = true) inOrder_runs
  have hreach := hr.reach.mono (timely_of_upToDate onePool)
  have hrest : AtRest ((((system onePool (sized 1)).restrict fun s a =>
      upToDate onePool s a = true).run (.init onePool (sized 1)) inOrder).get inOrder_runs) := by
    refine ⟨fun p => ?_, fun i => ?_, by decide +kernel, by decide +kernel⟩
    · match p with
      | 0 => exact Or.inr rfl
      | 1 => exact Or.inr rfl
      | p + 2 => exact Or.inl rfl
    · match i with
      | 0 => exact Or.inr ⟨.ok (), rfl⟩
      | i + 1 => exact Or.inl rfl
  have hcur : State.current onePool ((((system onePool (sized 1)).restrict fun s a =>
      upToDate onePool s a = true).run (.init onePool (sized 1)) inOrder).get inOrder_runs) = 3 := by
    decide +kernel
  exact ⟨_, hreach, hrest, hcur, ((pool_size_converges onePool (sized 1) _ hreach).1 hrest).trans hcur⟩

end PublishedSize

end ServiceLib
