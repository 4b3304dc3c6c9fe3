import ServiceLib.Store.JoinStorage

/-!
# Join groups end once

`join_group_terminality`: in every run of calls and timers, a value is accepted into one group, at
its slot and in order; the callbacks of a group do not overlap and see all its values; a group ends
at most once, takes no value afterwards, and never touches the group that replaced it.

The invariant `GroupsOk` reads a group through `valuesOf`, `processedOf` and `lockOf`, for which a
group that was never created is an empty one. Creating a group then changes nothing, and only three
steps remain to be looked at: a value is accepted, `invoke` ends, a group expires. Each happens under
the lock of its group, so no other running callback is affected (`CallOk.update`).
-/

namespace ServiceLib

namespace JoinStorage

variable {K V : Type}

/-! ## Groups -/

def valuesOf (o : Option (Item V)) : List (List V) := o.elim [] Item.values

def processedOf (o : Option (Item V)) : Bool := o.elim false Item.processed

def lockOf (o : Option (Item V)) : Option ℕ := o.elim none Item.lock

@[simp] theorem valuesOf_some (x : Item V) : valuesOf (some x) = x.values := rfl

@[simp] theorem processedOf_some (x : Item V) : processedOf (some x) = x.processed := rfl

@[simp] theorem lockOf_some (x : Item V) : lockOf (some x) = x.lock := rfl

/-- The values accepted into slot `i` of a group, in order. -/
def slot (accepted : List (Accepted V)) (e i : ℕ) : List V :=
  (accepted.filter fun a => a.entry = e ∧ a.index = i).map Accepted.value

/-- How a group has ended. -/
def terminals (terminal : List (ℕ × Terminal)) (e : ℕ) : List (ℕ × Terminal) :=
  terminal.filter fun p => p.1 = e

theorem slot_append (accepted : List (Accepted V)) (a : Accepted V) (e i : ℕ) :
    slot (accepted ++ [a]) e i =
      slot accepted e i ++ if a.entry = e ∧ a.index = i then [a.value] else [] := by
  rw [slot, List.filter_append, List.map_append, ← slot]
  by_cases h : a.entry = e ∧ a.index = i
  · rw [if_pos h, List.filter_cons_of_pos (by simpa using h)]
    rfl
  · rw [if_neg h, List.filter_cons_of_neg (by simpa using h)]
    rfl

theorem terminals_append (terminal : List (ℕ × Terminal)) (e e' : ℕ) (τ : Terminal) :
    terminals (terminal ++ [(e, τ)]) e' =
      terminals terminal e' ++ if e = e' then [(e, τ)] else [] := by
  rw [terminals, List.filter_append, ← terminals]
  by_cases h : e = e'
  · rw [if_pos h, List.filter_cons_of_pos (by simpa using h)]
    rfl
  · rw [if_neg h, List.filter_cons_of_neg (by simpa using h)]
    rfl

theorem mem_terminals {terminal : List (ℕ × Terminal)} {e : ℕ} {τ : Terminal} :
    (e, τ) ∈ terminals terminal e ↔ (e, τ) ∈ terminal := by
  rw [terminals, List.mem_filter, decide_eq_true_eq]
  exact and_iff_left rfl

/-- `push` reaches its own slot only. -/
theorem getD_pushAt (values : List (List V)) (i j : ℕ) (v : V) :
    (pushAt values i v).getD j [] = values.getD j [] ++ if i = j then [v] else [] := by
  have hpad : (values ++ List.replicate (i + 1 - values.length) []).getD j [] =
      values.getD j [] := by
    rw [List.getD_eq_getElem?_getD, List.getD_eq_getElem?_getD, List.getElem?_append]
    split_ifs with hj
    · rfl
    · rw [List.getElem?_replicate, List.getElem?_eq_none (Nat.le_of_not_lt hj)]
      split_ifs <;> rfl
  rw [pushAt, List.getD_eq_getElem?_getD, List.getElem?_modify]
  rw [List.getD_eq_getElem?_getD] at hpad
  by_cases hij : i = j
  · subst hij
    have hlt : i < (values ++ List.replicate (i + 1 - values.length) []).length := by
      rw [List.length_append, List.length_replicate]
      omega
    rw [List.getElem?_eq_getElem hlt] at hpad ⊢
    simp only [if_true, Option.map_eq_map, Option.map_some, Option.getD_some] at hpad ⊢
    rw [hpad]
  · simp only [if_neg hij, List.append_nil, id_map', hpad]

/-! ## The invariant -/

namespace CallPc

/-- The value of the call has not been accepted. -/
def Pending : CallPc V → Prop
  | .lookup | .locking _ | .removing _ true => True
  | _ => False

/-- The value of the call has been accepted. -/
def Taken : CallPc V → Prop
  | .invoking _ _ | .removing _ false | .returned | .panicked => True
  | _ => False

/-- The group a call works on. -/
def entry : CallPc V → Option ℕ
  | .locking e | .invoking e _ | .removing e _ => some e
  | _ => none

end CallPc

/-- What is recorded of groups agrees with them. -/
structure RecordsOk (entries : ℕ → Option (Item V)) (accepted : List (Accepted V))
    (terminal : List (ℕ × Terminal)) : Prop where
  slots : ∀ e i, (valuesOf (entries e)).getD i [] = slot accepted e i
  ended : ∀ e, (terminals terminal e).length = (processedOf (entries e)).toNat

/-- A running `invoke` has the lock of its group, which has not ended, and all its values. -/
def CallOk (entries : ℕ → Option (Item V)) (c : ℕ) (pc : CallPc V) : Prop :=
  ∀ e vals, pc = .invoking e vals →
    vals = valuesOf (entries e) ∧ processedOf (entries e) = false ∧ lockOf (entries e) = some c

/-- A running expiry callback has ended its group, and has all its values. -/
def TimerOk (entries : ℕ → Option (Item V)) (terminal : List (ℕ × Terminal)) (t : ℕ)
    (x : Timer K V) : Prop :=
  ∀ callback context vals, x.pc = .calling callback context vals →
    (x.entry, Terminal.expired t) ∈ terminal ∧ vals = valuesOf (entries x.entry)

/-- The lock of a group is held by a running `invoke`. -/
def LockedOk (entries : ℕ → Option (Item V)) (calls : ℕ → Option (Call K V)) : Prop :=
  ∀ e c, lockOf (entries e) = some c →
    ∃ call vals, calls c = some call ∧ call.pc = .invoking e vals

/-- A call's value is accepted once, and before the call returns. -/
structure CallsOk (calls : ℕ → Option (Call K V)) (accepted : List (Accepted V)) : Prop where
  nodup : (accepted.map Accepted.call).Nodup
  known : ∀ a ∈ accepted, ∃ call, calls a.call = some call ∧ call.index = a.index ∧
    call.value = a.value ∧ ¬ call.pc.Pending
  taken : ∀ c call, calls c = some call → call.pc.Taken → ∃ a ∈ accepted, a.call = c

structure GroupsOk (s : State K V) : Prop where
  fresh : ∀ e, s.nextEntry ≤ e → s.entries e = none
  records : RecordsOk s.entries s.accepted s.terminal
  invoking : ∀ c call, s.calls c = some call → CallOk s.entries c call.pc
  locked : LockedOk s.entries s.calls
  calling : ∀ t x, s.timers t = some x → TimerOk s.entries s.terminal t x
  calls : CallsOk s.calls s.accepted

theorem groupsOk_init : GroupsOk (State.init : State K V) where
  fresh := fun _ _ => rfl
  records := ⟨fun _ _ => rfl, fun _ => rfl⟩
  invoking := nofun
  locked := nofun
  calling := nofun
  calls := ⟨List.nodup_nil, nofun, nofun⟩

/-! ## Frames -/

theorem RecordsOk.open_iff {entries : ℕ → Option (Item V)} {accepted : List (Accepted V)}
    {terminal : List (ℕ × Terminal)} (h : RecordsOk entries accepted terminal) (e : ℕ) :
    terminals terminal e = [] ↔ processedOf (entries e) = false := by
  rw [← List.length_eq_zero_iff, h.ended e]
  cases processedOf (entries e) <;> simp

/-- A group whose lock a call does not hold may change under the call. -/
theorem CallOk.update {entries : ℕ → Option (Item V)} {c : ℕ} {pc : CallPc V}
    (h : CallOk entries c pc) {e : ℕ} (hl : lockOf (entries e) ≠ some c) (x : Item V) :
    CallOk (Function.update entries e (some x)) c pc := by
  intro e' vals hpc
  obtain ⟨hv, hp, hc⟩ := h e' vals hpc
  have hne : e' ≠ e := by
    rintro rfl
    exact hl hc
  rw [Function.update_of_ne hne]
  exact ⟨hv, hp, hc⟩

/-- One call has moved on; it held no lock but that of a group it released. -/
theorem LockedOk.update {entries entries' : ℕ → Option (Item V)} {calls : ℕ → Option (Call K V)}
    (h : LockedOk entries calls) {c : ℕ} {call : Call K V}
    (hl : ∀ e c', lockOf (entries' e) = some c' → c' ≠ c → lockOf (entries e) = some c')
    (hc : ∀ e, lockOf (entries' e) = some c → ∃ vals, call.pc = .invoking e vals) :
    LockedOk entries' (Function.update calls c (some call)) := by
  intro e c' hlock
  by_cases hcc : c' = c
  · subst hcc
    obtain ⟨vals, hpc⟩ := hc e hlock
    exact ⟨call, vals, Function.update_self .., hpc⟩
  · obtain ⟨call', vals, hc', hpc⟩ := h e c' (hl e c' hlock hcc)
    exact ⟨call', vals, by rw [Function.update_of_ne hcc, hc'], hpc⟩

/-- A call outside `invoke` holds no lock. -/
theorem LockedOk.not_held {entries : ℕ → Option (Item V)} {calls : ℕ → Option (Call K V)}
    (h : LockedOk entries calls) {c : ℕ}
    (hc : ∀ call e vals, calls c = some call → call.pc ≠ .invoking e vals) (e : ℕ) :
    lockOf (entries e) ≠ some c := by
  intro hl
  obtain ⟨call, vals, hc', hpc⟩ := h e c hl
  exact hc call e vals hc' hpc

/-- The values of an ended group must not change under an expiry callback. -/
theorem TimerOk.mono {entries entries' : ℕ → Option (Item V)}
    {terminal terminal' : List (ℕ × Terminal)} {t : ℕ} {x : Timer K V}
    (h : TimerOk entries terminal t x)
    (hv : ∀ e, terminals terminal e ≠ [] → valuesOf (entries' e) = valuesOf (entries e))
    (ht : terminal ⊆ terminal') : TimerOk entries' terminal' t x := by
  intro callback context vals hpc
  obtain ⟨hm, hvals⟩ := h callback context vals hpc
  refine ⟨ht hm, ?_⟩
  rw [hv x.entry (List.ne_nil_of_mem (mem_terminals.2 hm)), hvals]

/-- A call moves on without its value being accepted. -/
theorem CallsOk.setCall {calls : ℕ → Option (Call K V)} {accepted : List (Accepted V)}
    (h : CallsOk calls accepted) {c : ℕ} {call : Call K V} (hc : calls c = some call)
    {pc : CallPc V} (hp : pc.Pending → call.pc.Pending) (ht : pc.Taken → call.pc.Taken) :
    CallsOk (Function.update calls c (some { call with pc := pc })) accepted := by
  refine ⟨h.nodup, fun a ha => ?_, fun c' call' hc' htk => ?_⟩
  · obtain ⟨call', hc', hi, hv, hn⟩ := h.known a ha
    by_cases hac : a.call = c
    · rw [hac, hc, Option.some.injEq] at hc'
      subst hc'
      rw [hac, Function.update_self]
      exact ⟨_, rfl, hi, hv, fun h => hn (hp h)⟩
    · exact ⟨call', by rw [Function.update_of_ne hac, hc'], hi, hv, hn⟩
  · by_cases hcc : c' = c
    · subst hcc
      rw [Function.update_self, Option.some.injEq] at hc'
      subst hc'
      exact h.taken c' call hc (ht htk)
    · rw [Function.update_of_ne hcc] at hc'
      exact h.taken c' call' hc' htk

/-- One call has moved on; the others see their groups unchanged. -/
theorem invoking_update {entries' : ℕ → Option (Item V)} {calls : ℕ → Option (Call K V)}
    {c : ℕ} {call : Call K V}
    (h : ∀ c' call', calls c' = some call' → c' ≠ c → CallOk entries' c' call'.pc)
    (hc : CallOk entries' c call.pc) :
    ∀ c' call', Function.update calls c (some call) c' = some call' →
      CallOk entries' c' call'.pc := by
  intro c' call' hc'
  by_cases hcc : c' = c
  · subst hcc
    rw [Function.update_self, Option.some.injEq] at hc'
    exact hc' ▸ hc
  · rw [Function.update_of_ne hcc] at hc'
    exact h c' call' hc' hcc

/-- One timer has moved on. -/
theorem calling_update {entries : ℕ → Option (Item V)} {terminal : List (ℕ × Terminal)}
    {timers : ℕ → Option (Timer K V)} {t : ℕ} {x : Timer K V}
    (h : ∀ t' x', timers t' = some x' → TimerOk entries terminal t' x')
    (hx : TimerOk entries terminal t x) :
    ∀ t' x', Function.update timers t (some x) t' = some x' → TimerOk entries terminal t' x' := by
  intro t' x' ht'
  by_cases htt : t' = t
  · subst htt
    rw [Function.update_self, Option.some.injEq] at ht'
    exact ht' ▸ hx
  · rw [Function.update_of_ne htt] at ht'
    exact h t' x' ht'

/-- A timer that runs no callback has nothing to keep. -/
theorem timerOk_of_ne {entries : ℕ → Option (Item V)} {terminal : List (ℕ × Terminal)} {t : ℕ}
    {x : Timer K V} (hx : ∀ callback context vals, x.pc ≠ .calling callback context vals) :
    TimerOk entries terminal t x :=
  fun callback context vals hpc => absurd hpc (hx callback context vals)

variable {s : State K V}

theorem GroupsOk.fresh_update (h : GroupsOk s) {e : ℕ} {x : Item V} (hx : s.entries e = some x)
    (x' : Item V) : ∀ e', s.nextEntry ≤ e' → Function.update s.entries e (some x') e' = none := by
  intro e' he'
  rw [Function.update_of_ne]
  · exact h.fresh e' he'
  · rintro rfl
    rw [h.fresh e' he'] at hx
    cases hx

/-- A call moves on outside its callback. -/
theorem GroupsOk.setCall (h : GroupsOk s) {c : ℕ} {call : Call K V} (hc : s.calls c = some call)
    (hout : ∀ e vals, call.pc ≠ .invoking e vals) {pc : CallPc V}
    (hn : ∀ e vals, pc ≠ .invoking e vals) (hp : pc.Pending → call.pc.Pending)
    (ht : pc.Taken → call.pc.Taken) : GroupsOk (s.setCall c call pc) where
  fresh := h.fresh
  records := h.records
  invoking := invoking_update (fun c' call' hc' _ => h.invoking c' call' hc')
    (fun e vals he => absurd he (hn e vals))
  locked := by
    refine h.locked.update (fun _ _ hl _ => hl) fun e hl => absurd hl (h.locked.not_held ?_ e)
    intro call' e' vals hc'
    rw [hc, Option.some.injEq] at hc'
    exact hc' ▸ hout e' vals
  calling := h.calling
  calls := h.calls.setCall hc hp ht

/-- A timer moves on without starting a callback. -/
theorem GroupsOk.setTimer (h : GroupsOk s) (t : ℕ) {x : Timer K V}
    (hx : ∀ callback context vals, x.pc ≠ .calling callback context vals) :
    GroupsOk (s.setTimer t x) :=
  ⟨h.fresh, h.records, h.invoking, h.locked, calling_update h.calling (timerOk_of_ne hx), h.calls⟩

/-! ## Calls -/

/-- What accepting a value does to the timers: the first value of a group may arm one, whose token
is kept in the group. -/
inductive Arms (s : State K V) (e : ℕ) (x x' : Item V) : (ℕ → Option (Timer K V)) → ℕ → Prop
  | keeps : x'.expiry = x.expiry → Arms s e x x' s.timers s.nextTimer
  /-- The call panics after it has made the token. -/
  | panics : x'.expiry = some s.nextTimer → Arms s e x x' s.timers (s.nextTimer + 1)
  | arms (y : Timer K V) : x'.expiry = some s.nextTimer → y.pc = .sleeping → y.entry = e →
      y.generation = x'.generation →
      Arms s e x x' (Function.update s.timers s.nextTimer (some y)) (s.nextTimer + 1)

/-- What accepting a value does: the group gets the value, and the call holds its lock or has
panicked. -/
theorem accept_eq (s : State K V) (c : ℕ) (call : Call K V) (e : ℕ) (x : Item V) :
    ∃ x' pc timers nextTimer, accept s c call e x =
        { s with
          entries := Function.update s.entries e (some x')
          calls := Function.update s.calls c (some { call with pc := pc })
          timers := timers
          nextTimer := nextTimer
          accepted := s.accepted ++ [⟨e, c, call.index, call.value⟩] } ∧
      x'.values = pushAt x.values call.index call.value ∧ x'.processed = x.processed ∧
      (x.values ≠ [] → x'.generation = x.generation) ∧
      (pc = .invoking e x'.values ∧ x'.lock = some c ∨ pc = .panicked ∧ x'.lock = x.lock) ∧
      Arms s e x x' timers nextTimer := by
  unfold accept
  by_cases hfirst : x.values.isEmpty = true
  · rw [if_pos hfirst]
    have hnil : x.values = [] := List.isEmpty_iff.1 hfirst
    by_cases httl : 0 < call.effectiveTtl
    · rw [if_pos httl]
      cases hd : x.deadline with
      | some deadline =>
        exact ⟨_, _, _, _, rfl, rfl, rfl, fun hne => absurd hnil hne, .inl ⟨rfl, rfl⟩,
          .arms _ rfl rfl rfl rfl⟩
      | none =>
        exact ⟨_, _, _, _, rfl, rfl, rfl, fun hne => absurd hnil hne, .inr ⟨rfl, rfl⟩,
          .panics rfl⟩
    · rw [if_neg httl]
      exact ⟨_, _, _, _, rfl, rfl, rfl, fun hne => absurd hnil hne, .inl ⟨rfl, rfl⟩, .keeps rfl⟩
  · rw [if_neg hfirst]
    exact ⟨_, _, _, _, rfl, rfl, rfl, fun _ => rfl, .inl ⟨rfl, rfl⟩, .keeps rfl⟩

/-- The record of a value that is being accepted. -/
theorem CallsOk.accept {calls : ℕ → Option (Call K V)} {accepted : List (Accepted V)}
    (h : CallsOk calls accepted) {c : ℕ} {call : Call K V} (hc : calls c = some call)
    (hp : call.pc.Pending) (e : ℕ) {pc : CallPc V} (hn : ¬ pc.Pending) :
    CallsOk (Function.update calls c (some { call with pc := pc }))
      (accepted ++ [⟨e, c, call.index, call.value⟩]) := by
  have hnot : ∀ a ∈ accepted, a.call ≠ c := by
    intro a ha hac
    obtain ⟨call', hc', -, -, hn'⟩ := h.known a ha
    rw [hac, hc, Option.some.injEq] at hc'
    exact hn' (hc' ▸ hp)
  refine ⟨?_, fun a ha => ?_, fun c' call' hc' htk => ?_⟩
  · rw [List.map_append, List.map_singleton, ← List.concat_eq_append]
    refine h.nodup.concat fun hm => ?_
    obtain ⟨a, ha, hac⟩ := List.mem_map.1 hm
    exact hnot a ha hac
  · rcases List.mem_append.1 ha with ha | ha
    · obtain ⟨call', hc', hi, hv, hn'⟩ := h.known a ha
      exact ⟨call', by rw [Function.update_of_ne (hnot a ha), hc'], hi, hv, hn'⟩
    · rw [List.mem_singleton.1 ha, Function.update_self]
      exact ⟨_, rfl, rfl, rfl, hn⟩
  · by_cases hcc : c' = c
    · exact ⟨_, List.mem_append_right _ (List.mem_singleton_self _), hcc.symm⟩
    · rw [Function.update_of_ne hcc] at hc'
      obtain ⟨a, ha, hac⟩ := h.taken c' call' hc' htk
      exact ⟨a, List.mem_append_left _ ha, hac⟩

/-- A new group is an empty one, as it was before it was created. -/
theorem GroupsOk.create [DecidableEq K] (h : GroupsOk s) {c : ℕ} {call : Call K V}
    (hc : s.calls c = some call) (hp : call.pc = .lookup) : GroupsOk (lookup.create s c call) := by
  have hnone : s.entries s.nextEntry = none := h.fresh _ le_rfl
  set x : Item V := ⟨[], false, 0, call.context, call.callback, none,
    if 0 < call.effectiveTtl then some (s.clock + call.effectiveTtl) else none, none⟩
  have hview : ∀ e, valuesOf (Function.update s.entries s.nextEntry (some x) e) =
      valuesOf (s.entries e) ∧ processedOf (Function.update s.entries s.nextEntry (some x) e) =
      processedOf (s.entries e) := by
    intro e
    by_cases he : e = s.nextEntry
    · subst he
      rw [Function.update_self, hnone]
      exact ⟨rfl, rfl⟩
    · rw [Function.update_of_ne he]
      exact ⟨rfl, rfl⟩
  have hcreated : GroupsOk (State.setEntry
      { s with nextEntry := s.nextEntry + 1, items := s.items.insert call.key s.nextEntry }
      s.nextEntry x) := by
    refine ⟨fun e he => ?_, ⟨fun e i => ?_, fun e => ?_⟩, fun c' call' hc' => ?_,
      fun e c' hl => ?_, fun t y ht => ?_, h.calls⟩
    · change s.nextEntry + 1 ≤ e at he
      change Function.update s.entries s.nextEntry (some x) e = none
      rw [Function.update_of_ne (by omega)]
      exact h.fresh e (by omega)
    · exact (congrArg (fun v => v.getD i []) (hview e).1).trans (h.records.slots e i)
    · exact (h.records.ended e).trans (congrArg Bool.toNat (hview e).2).symm
    · exact (h.invoking c' call' hc').update (by rw [hnone]; exact nofun) x
    · by_cases he : e = s.nextEntry
      · subst he
        change lockOf (Function.update s.entries s.nextEntry (some x) s.nextEntry) = some c' at hl
        rw [Function.update_self] at hl
        cases hl
      · change lockOf (Function.update s.entries s.nextEntry (some x) e) = some c' at hl
        rw [Function.update_of_ne he] at hl
        exact h.locked e c' hl
    · exact (h.calling t y ht).mono (fun e _ => (hview e).1) (List.Subset.refl _)
  exact hcreated.setCall hc (by rw [hp]; exact nofun) nofun (fun _ => by rw [hp]; exact trivial)
    nofun

theorem GroupsOk.lookup [DecidableEq K] (h : GroupsOk s) {c : ℕ} {call : Call K V}
    (hc : s.calls c = some call) (hp : call.pc = .lookup) : GroupsOk (JoinStorage.lookup s c call) := by
  unfold JoinStorage.lookup
  split
  · split_ifs
    · exact h.create hc hp
    · exact h.setCall hc (by rw [hp]; exact nofun) nofun (fun _ => by rw [hp]; exact trivial) nofun
  · exact h.create hc hp

/-- **A value is accepted** into a group that has not ended and whose lock is free. -/
theorem GroupsOk.accept (h : GroupsOk s) {c : ℕ} {call : Call K V} (hc : s.calls c = some call)
    (hp : call.pc.Pending) {e : ℕ} {x : Item V} (hx : s.entries e = some x)
    (hl : x.lock = none) (hpr : x.processed = false) :
    GroupsOk (JoinStorage.accept s c call e x) := by
  obtain ⟨x', pc, timers, n, heq, hv, hpr', -, hpc, ht⟩ := accept_eq s c call e x
  rw [heq]
  have hopen : terminals s.terminal e = [] :=
    (h.records.open_iff e).2 (by rw [hx]; exact hpr)
  have hlock : ∀ c', lockOf (s.entries e) ≠ some c' := by
    rw [hx, lockOf_some, hl]
    exact nofun
  have hcalling : ∀ t y, s.timers t = some y →
      TimerOk (Function.update s.entries e (some x')) s.terminal t y := by
    refine fun t y hy => (h.calling t y hy).mono (fun e' he' => ?_) (List.Subset.refl _)
    rw [Function.update_of_ne]
    rintro rfl
    exact he' hopen
  refine ⟨h.fresh_update hx x', ⟨fun e' i => ?_, fun e' => ?_⟩, ?_, ?_, ?_, ?_⟩
  · rw [slot_append, ← h.records.slots e' i]
    by_cases he : e' = e
    · subst he
      simp only [Function.update_self, valuesOf_some, hv, hx, getD_pushAt, true_and]
    · simp [Function.update_of_ne he, Ne.symm he]
  · rw [h.records.ended e']
    by_cases he : e' = e
    · subst he
      simp only [Function.update_self, processedOf_some, hpr', hx]
    · simp only [Function.update_of_ne he]
  · refine invoking_update (fun c' call' hc' _ => (h.invoking c' call' hc').update (hlock c') x')
      fun e' vals he => ?_
    rcases hpc with ⟨rfl, hlk⟩ | ⟨rfl, -⟩
    · cases he
      simp only [Function.update_self, valuesOf_some, processedOf_some, lockOf_some]
      exact ⟨trivial, hpr'.trans hpr, hlk⟩
    · cases he
  · have hlock' : ∀ e' c', lockOf (Function.update s.entries e (some x') e') = some c' →
        lockOf (s.entries e') = some c' ∨ e' = e ∧ c' = c ∧ pc = .invoking e x'.values := by
      intro e' c' hl'
      by_cases he : e' = e
      · subst he
        rw [Function.update_self, lockOf_some] at hl'
        rcases hpc with ⟨hpc, hlk⟩ | ⟨-, hlk⟩
        · exact .inr ⟨rfl, Option.some.inj (hl'.symm.trans hlk), hpc⟩
        · rw [hlk, hl] at hl'
          cases hl'
      · rw [Function.update_of_ne he] at hl'
        exact .inl hl'
    have hfree : ∀ e', lockOf (s.entries e') ≠ some c := by
      refine h.locked.not_held fun call' e' vals hc' hinv => ?_
      rw [hc, Option.some.injEq] at hc'
      rw [hc', hinv] at hp
      exact hp
    refine h.locked.update (fun e' c' hl' hcc => ?_) fun e' hl' => ?_
    · rcases hlock' e' c' hl' with hl' | ⟨-, hcc', -⟩
      · exact hl'
      · exact absurd hcc' hcc
    · rcases hlock' e' c hl' with hl' | ⟨rfl, -, hpc⟩
      · exact absurd hl' (hfree e')
      · exact ⟨_, hpc⟩
  · cases ht with
    | keeps | panics => exact hcalling
    | arms y _ hy =>
      exact calling_update hcalling (timerOk_of_ne fun _ _ _ => by rw [hy]; exact nofun)
  · refine h.calls.accept hc hp e ?_
    rcases hpc with ⟨rfl, -⟩ | ⟨rfl, -⟩ <;> exact id

/-- What a group's record says when its item changes and keeps its values: the group ends, or
nothing is recorded. -/
inductive Settles (e : ℕ) (x x' : Item V) (terminal : List (ℕ × Terminal)) :
    List (ℕ × Terminal) → Prop
  | same : x'.processed = x.processed → Settles e x x' terminal terminal
  | ends (τ : Terminal) : x.processed = false → x'.processed = true →
      Settles e x x' terminal (terminal ++ [(e, τ)])

theorem Settles.subset {e : ℕ} {x x' : Item V} {terminal terminal' : List (ℕ × Terminal)}
    (h : Settles e x x' terminal terminal') : terminal ⊆ terminal' := by
  cases h with
  | same => exact List.Subset.refl _
  | ends τ => exact List.subset_append_left _ _

theorem valuesOf_update {entries : ℕ → Option (Item V)} {e : ℕ} {x x' : Item V}
    (hx : entries e = some x) (hv : x'.values = x.values) (e' : ℕ) :
    valuesOf (Function.update entries e (some x') e') = valuesOf (entries e') := by
  by_cases he : e' = e
  · subst he
    rw [Function.update_self, hx, valuesOf_some, valuesOf_some, hv]
  · rw [Function.update_of_ne he]

theorem RecordsOk.settle {entries : ℕ → Option (Item V)} {accepted : List (Accepted V)}
    {terminal terminal' : List (ℕ × Terminal)} (h : RecordsOk entries accepted terminal) {e : ℕ}
    {x x' : Item V} (hx : entries e = some x) (hv : x'.values = x.values)
    (hs : Settles e x x' terminal terminal') :
    RecordsOk (Function.update entries e (some x')) accepted terminal' := by
  refine ⟨fun e' i => by rw [valuesOf_update hx hv, h.slots e' i], fun e' => ?_⟩
  by_cases he : e' = e
  · subst he
    rw [Function.update_self, processedOf_some]
    have hend := h.ended e'
    rw [hx, processedOf_some] at hend
    cases hs with
    | same hp => rw [hp, hend]
    | ends τ hp hp' => rw [terminals_append, if_pos rfl, List.length_append, hend, hp, hp']; rfl
  · rw [Function.update_of_ne he]
    cases hs with
    | same => exact h.ended e'
    | ends τ => rw [terminals_append, if_neg (Ne.symm he), List.append_nil]; exact h.ended e'

theorem GroupsOk.calling_settle (h : GroupsOk s) {e : ℕ} {x x' : Item V}
    {terminal' : List (ℕ × Terminal)} (hx : s.entries e = some x) (hv : x'.values = x.values)
    (hs : Settles e x x' s.terminal terminal') :
    ∀ t y, s.timers t = some y → TimerOk (Function.update s.entries e (some x')) terminal' t y :=
  fun t y hy => (h.calling t y hy).mono (fun e' _ => valuesOf_update hx hv e') hs.subset

/-- **`invoke` ends**: the call that holds the lock of a group gives it back. -/
theorem GroupsOk.release (h : GroupsOk s) {c : ℕ} {call : Call K V} (hc : s.calls c = some call)
    {e : ℕ} {vals : List (List V)} (hpc : call.pc = .invoking e vals) {x : Item V}
    (hx : s.entries e = some x) {terminal' : List (ℕ × Terminal)} (tokens : ℕ → Bool)
    (x' : Item V) (hv : x'.values = x.values) (hl : x'.lock = none)
    (hs : Settles e x x' s.terminal terminal') (pc : CallPc V)
    (hn : ∀ e vals, pc ≠ .invoking e vals) (hp : ¬ pc.Pending) :
    GroupsOk ((State.setEntry { s with terminal := terminal', tokens := tokens } e x').setCall c
      call pc) := by
  have hlock : lockOf (s.entries e) = some c := (h.invoking c call hc e vals hpc).2.2
  have hlock' : ∀ e' c', lockOf (Function.update s.entries e (some x') e') = some c' →
      e' ≠ e ∧ lockOf (s.entries e') = some c' := by
    intro e' c' hl'
    by_cases he : e' = e
    · subst he
      rw [Function.update_self, lockOf_some, hl] at hl'
      cases hl'
    · rw [Function.update_of_ne he] at hl'
      exact ⟨he, hl'⟩
  refine ⟨h.fresh_update hx x', h.records.settle hx hv hs, ?_, ?_, h.calling_settle hx hv hs, ?_⟩
  · refine invoking_update (fun c' call' hc' hcc => ?_) (fun e' vals' he => absurd he (hn e' vals'))
    refine (h.invoking c' call' hc').update (fun hl => hcc ?_) x'
    exact (Option.some.inj (hlock.symm.trans hl)).symm
  · refine h.locked.update (fun e' c' hl' _ => (hlock' e' c' hl').2) fun e' hl' => ?_
    -- the call held the lock of `e` and of no other group
    obtain ⟨call', vals', hc', hpc'⟩ := h.locked e' c (hlock' e' c hl').2
    rw [hc, Option.some.injEq] at hc'
    rw [← hc', hpc] at hpc'
    cases hpc'
    exact absurd rfl (hlock' e c hl').1
  · exact h.calls.setCall hc (fun hpend => absurd hpend hp) fun _ => by rw [hpc]; exact trivial

theorem GroupsOk.invoked (h : GroupsOk s) {c : ℕ} {call : Call K V} (hc : s.calls c = some call)
    {e : ℕ} {vals : List (List V)} (hpc : call.pc = .invoking e vals) {x : Item V}
    (hx : s.entries e = some x) (result : Bool) :
    GroupsOk (JoinStorage.invoked s c call e x result) := by
  have hpr : x.processed = false := by
    have hpr := (h.invoking c call hc e vals hpc).2.1
    rwa [hx] at hpr
  unfold JoinStorage.invoked
  cases result with
  | true =>
    rw [if_pos rfl]
    exact h.release hc hpc hx _ { x with processed := true, expiry := none, lock := none } rfl rfl
      (.ends (.completed c) hpr rfl) (.removing e false) nofun id
  | false =>
    rw [if_neg Bool.false_ne_true]
    exact h.release hc hpc hx s.tokens { x with
      processed := false
      deadline := if call.renewTtl then some (s.clock + call.effectiveTtl) else x.deadline
      lock := none } rfl rfl (.same hpr.symm) .returned nofun id

/-! ## Timers -/

/-- **A group expires**: its timer has found the lock free. -/
theorem GroupsOk.expire (h : GroupsOk s) (deadlineOf : ℕ → Option ℕ) {t : ℕ} {y : Timer K V}
    {x : Item V} (hx : s.entries y.entry = some x) (hl : x.lock = none) :
    GroupsOk (JoinStorage.expire deadlineOf s t y x) := by
  unfold JoinStorage.expire
  by_cases hstop : (x.processed || x.generation ≠ y.generation) = true
  · rw [if_pos hstop]
    exact h.setTimer t nofun
  · rw [if_neg hstop]
    have hpr : x.processed = false := by
      simp only [Bool.or_eq_true, not_or, Bool.not_eq_true] at hstop
      exact hstop.1
    cases (if deadlineOf y.context = none then x.deadline.filter (s.clock < ·) else none) with
    | some renewed => exact h.setTimer t nofun
    | none =>
      set x' : Item V := { x with processed := true, expiry := none }
      have hs : Settles y.entry x x' s.terminal (s.terminal ++ [(y.entry, Terminal.expired t)]) :=
        .ends (.expired t) hpr rfl
      refine ⟨h.fresh_update hx x', h.records.settle hx rfl hs, fun c call hc => ?_,
        fun e c hl' => ?_, ?_, h.calls⟩
      · exact (h.invoking c call hc).update (by rw [hx, lockOf_some, hl]; exact nofun) x'
      · change lockOf (Function.update s.entries y.entry (some x') e) = some c at hl'
        by_cases he : e = y.entry
        · subst he
          rw [Function.update_self, lockOf_some] at hl'
          rw [show x'.lock = none from hl] at hl'
          cases hl'
        · rw [Function.update_of_ne he] at hl'
          exact h.locked e c hl'
      · refine calling_update (h.calling_settle hx rfl hs) fun callback context vals hpc => ?_
        cases hpc
        refine ⟨List.mem_append_right _ (List.mem_singleton_self _), ?_⟩
        change x.values = valuesOf (Function.update s.entries y.entry (some x') y.entry)
        rw [Function.update_self]
        rfl

/-! ## Every step -/

/-- A call that is being made has no value accepted yet. -/
theorem GroupsOk.join (h : GroupsOk s) {c : ℕ} (hc : s.calls c = none) (call : Call K V) :
    GroupsOk (s.setCall c call .lookup) := by
  refine ⟨h.fresh, h.records, ?_, ?_, h.calling, h.calls.nodup, fun a ha => ?_,
    fun c' call' hc' ht => ?_⟩
  · exact invoking_update (fun c' call' hc' _ => h.invoking c' call' hc') nofun
  · refine h.locked.update (fun _ _ hl _ => hl) fun e hl => absurd hl (h.locked.not_held ?_ e)
    intro call' e' vals hc'
    rw [hc] at hc'
    cases hc'
  · obtain ⟨call', hc', hrest⟩ := h.calls.known a ha
    refine ⟨call', ?_, hrest⟩
    change Function.update s.calls c _ a.call = some call'
    rw [Function.update_of_ne, hc']
    rintro hac
    rw [hac, hc] at hc'
    cases hc'
  · change Function.update s.calls c _ c' = some call' at hc'
    by_cases hcc : c' = c
    · subst hcc
      rw [Function.update_self, Option.some.injEq] at hc'
      subst hc'
      exact ht.elim
    · rw [Function.update_of_ne hcc] at hc'
      exact h.calls.taken c' call' hc' ht

variable [DecidableEq K] {deadlineOf : ℕ → Option ℕ} {t : State K V} {a : Action K V}

theorem GroupsOk.step (h : GroupsOk s) (hs : step deadlineOf s a = some t) : GroupsOk t := by
  cases a with
  | join c context key index value callback configuredTtl renewTtl =>
    simp only [JoinStorage.step] at hs
    cases hc : s.calls c with
    | some _ => simp only [hc, reduceCtorEq] at hs
    | none =>
      simp only [hc, Option.some.injEq] at hs
      exact hs ▸ h.join hc _
  | lookup c =>
    simp only [JoinStorage.step, Option.bind_eq_bind, Option.bind_eq_some_iff] at hs
    obtain ⟨call, hc, hs⟩ := hs
    cases hpc : call.pc <;> simp only [hpc, reduceCtorEq, Option.some.injEq] at hs
    exact hs ▸ h.lookup hc hpc
  | lock c =>
    simp only [JoinStorage.step, Option.bind_eq_bind, Option.bind_eq_some_iff] at hs
    obtain ⟨call, hc, hs⟩ := hs
    cases hpc : call.pc <;> simp only [hpc, reduceCtorEq] at hs
    rename_i e
    obtain ⟨x, hx, hs⟩ := Option.bind_eq_some_iff.1 hs
    have hpend : call.pc.Pending := by rw [hpc]; exact trivial
    split_ifs at hs with hl hend
    · rw [Option.some.injEq] at hs
      exact hs ▸ h.setCall hc (by simp [hpc]) (by simp) (fun _ => hpend) (fun ht => False.elim ht)
    · simp only [Bool.or_eq_true, not_or, Bool.not_eq_true] at hend
      rw [Option.some.injEq] at hs
      exact hs ▸ h.accept hc hpend hx hl hend.1
  | invoked c result =>
    simp only [JoinStorage.step, Option.bind_eq_bind, Option.bind_eq_some_iff] at hs
    obtain ⟨call, hc, hs⟩ := hs
    cases hpc : call.pc <;> simp only [hpc, reduceCtorEq] at hs
    obtain ⟨x, hx, hs⟩ := Option.bind_eq_some_iff.1 hs
    rw [Option.some.injEq] at hs
    exact hs ▸ h.invoked hc hpc hx result
  | remove c =>
    simp only [JoinStorage.step, Option.bind_eq_bind, Option.bind_eq_some_iff] at hs
    obtain ⟨call, hc, hs⟩ := hs
    cases hpc : call.pc <;> simp only [hpc, reduceCtorEq, Option.some.injEq] at hs
    rename_i e retry
    have hitems : GroupsOk { s with items := removeIfSame s.items call.key e } :=
      ⟨h.fresh, h.records, h.invoking, h.locked, h.calling, h.calls⟩
    rw [← hs]
    cases retry
    · exact hitems.setCall hc (by simp [hpc]) (by simp) (fun hp => False.elim hp)
        fun _ => by rw [hpc]; exact trivial
    · exact hitems.setCall hc (by simp [hpc]) (by simp)
        (fun _ => by rw [hpc]; exact trivial) (fun ht => False.elim ht)
  | drop c =>
    simp only [JoinStorage.step, Option.bind_eq_bind, Option.bind_eq_some_iff] at hs
    obtain ⟨call, hc, hs⟩ := hs
    cases hpc : call.pc <;> simp only [hpc, reduceCtorEq] at hs
    case invoking e vals =>
      obtain ⟨x, hx, hs⟩ := Option.bind_eq_some_iff.1 hs
      rw [Option.some.injEq] at hs
      exact hs ▸ h.release hc hpc hx s.tokens { x with lock := none } rfl rfl (.same rfl) .dropped
        (by simp) id
    all_goals
      rw [Option.some.injEq] at hs
      exact hs ▸ h.setCall hc (by simp [hpc]) (by simp) (fun hp => False.elim hp)
        (fun ht => False.elim ht)
  | wake i =>
    simp only [JoinStorage.step, Option.bind_eq_bind, Option.bind_eq_some_iff] at hs
    obtain ⟨y, -, hs⟩ := hs
    cases hpc : y.pc <;> simp only [hpc, reduceCtorEq] at hs
    split_ifs at hs <;> rw [Option.some.injEq] at hs <;> exact hs ▸ h.setTimer i (by simp)
  | expire i =>
    simp only [JoinStorage.step, Option.bind_eq_bind, Option.bind_eq_some_iff] at hs
    obtain ⟨y, -, hs⟩ := hs
    cases hpc : y.pc <;> simp only [hpc, reduceCtorEq] at hs
    obtain ⟨x, hx, hs⟩ := Option.bind_eq_some_iff.1 hs
    split_ifs at hs with hl
    rw [Option.some.injEq] at hs
    exact hs ▸ h.expire deadlineOf hx hl
  | called i | callPanicked i =>
    simp only [JoinStorage.step, Option.bind_eq_bind, Option.bind_eq_some_iff] at hs
    obtain ⟨y, -, hs⟩ := hs
    cases hpc : y.pc <;> simp only [hpc, reduceCtorEq, Option.some.injEq] at hs
    exact hs ▸ h.setTimer i (by simp)
  | evict i =>
    simp only [JoinStorage.step, Option.bind_eq_bind, Option.bind_eq_some_iff] at hs
    obtain ⟨y, -, hs⟩ := hs
    cases hpc : y.pc <;> simp only [hpc, reduceCtorEq, Option.some.injEq] at hs
    have hitems : GroupsOk { s with items := removeIfSame s.items y.key y.entry } :=
      ⟨h.fresh, h.records, h.invoking, h.locked, h.calling, h.calls⟩
    exact hs ▸ hitems.setTimer i (by simp)
  | tick d =>
    simp only [JoinStorage.step, Option.some.injEq] at hs
    exact hs ▸ ⟨h.fresh, h.records, h.invoking, h.locked, h.calling, h.calls⟩
  | cancel context =>
    simp only [JoinStorage.step, Option.some.injEq] at hs
    exact hs ▸ ⟨h.fresh, h.records, h.invoking, h.locked, h.calling, h.calls⟩

theorem groupsOk_reachable (h : (system K V deadlineOf).Reachable s) : GroupsOk s :=
  h.invariant groupsOk_init fun _ _ _ hi hs => hi.step hs

/-! ## What a step leaves alone -/

/-- The group on whose behalf a step is taken. -/
def owner (s : State K V) : Action K V → Option ℕ
  | .lock c | .invoked c _ | .remove c | .drop c => (s.calls c).bind fun call => call.pc.entry
  | .wake i | .expire i | .called i | .callPanicked i | .evict i => (s.timers i).map Timer.entry
  | _ => none

/-- A step of group `e` changes no other group, removes none, and adds no value to an ended one. -/
structure Local (e : ℕ) (s t : State K V) : Prop where
  entries : ∀ e' ≠ e, t.entries e' = s.entries e'
  items : ∀ e' ≠ e, ∀ k, s.items.lookup k = some e' → t.items.lookup k = some e'
  values : processedOf (s.entries e) = true → valuesOf (t.entries e) = valuesOf (s.entries e)

theorem Local.of_eq {e : ℕ} (he : t.entries = s.entries) (hi : t.items = s.items) : Local e s t :=
  ⟨fun e' _ => by rw [he], fun e' _ k hk => by rw [hi, hk], fun _ => by rw [he]⟩

theorem Local.of_update {e : ℕ} {x x' : Item V} (hx : s.entries e = some x)
    (he : t.entries = Function.update s.entries e (some x')) (hi : t.items = s.items)
    (hv : x.processed = false ∨ x'.values = x.values) : Local e s t := by
  refine ⟨fun e' hne => by rw [he, Function.update_of_ne hne], fun e' _ k hk => by rw [hi, hk],
    fun hp => ?_⟩
  rw [hx, processedOf_some] at hp
  rcases hv with hv | hv
  · rw [hv] at hp
    cases hp
  · rw [he, valuesOf_update hx hv]

/-- Removal is by identity. -/
theorem Local.of_remove {e : ℕ} {key : K} (he : t.entries = s.entries)
    (hi : t.items = removeIfSame s.items key e) : Local e s t := by
  refine ⟨fun e' _ => by rw [he], fun e' hne k hk => ?_, fun _ => by rw [he]⟩
  rw [hi, removeIfSame]
  split_ifs with hsame
  · have hk' : k ≠ key := by
      rintro rfl
      exact hne (Option.some.inj (hk.symm.trans hsame))
    rw [Finmap.lookup_erase_ne hk', hk]
  · exact hk

/-- A step taken on behalf of a group is local to it. -/
theorem step_local (hs : step deadlineOf s a = some t) {e : ℕ} (ho : owner s a = some e) :
    Local e s t := by
  cases a with
  | join | lookup | tick | cancel => cases ho
  | lock c =>
    simp only [step, Option.bind_eq_bind, Option.bind_eq_some_iff] at hs
    obtain ⟨call, hc, hs⟩ := hs
    simp only [owner, hc, Option.bind_some] at ho
    cases hpc : call.pc <;> simp only [hpc, reduceCtorEq] at hs
    simp only [hpc, CallPc.entry, Option.some.injEq] at ho
    subst ho
    obtain ⟨x, hx, hs⟩ := Option.bind_eq_some_iff.1 hs
    split_ifs at hs with hl hend
    · rw [Option.some.injEq] at hs
      exact hs ▸ .of_eq rfl rfl
    · simp only [Bool.or_eq_true, not_or, Bool.not_eq_true] at hend
      obtain ⟨x', pc, timers, n, heq, -⟩ := accept_eq s c call _ x
      rw [heq, Option.some.injEq] at hs
      exact hs ▸ .of_update hx rfl rfl (.inl hend.1)
  | invoked c result =>
    simp only [step, Option.bind_eq_bind, Option.bind_eq_some_iff] at hs
    obtain ⟨call, hc, hs⟩ := hs
    simp only [owner, hc, Option.bind_some] at ho
    cases hpc : call.pc <;> simp only [hpc, reduceCtorEq] at hs
    simp only [hpc, CallPc.entry, Option.some.injEq] at ho
    subst ho
    obtain ⟨x, hx, hs⟩ := Option.bind_eq_some_iff.1 hs
    rw [Option.some.injEq] at hs
    cases result <;> exact hs ▸ .of_update hx rfl rfl (.inr rfl)
  | remove c =>
    simp only [step, Option.bind_eq_bind, Option.bind_eq_some_iff] at hs
    obtain ⟨call, hc, hs⟩ := hs
    simp only [owner, hc, Option.bind_some] at ho
    cases hpc : call.pc <;> simp only [hpc, reduceCtorEq, Option.some.injEq] at hs
    simp only [hpc, CallPc.entry, Option.some.injEq] at ho
    subst ho
    exact hs ▸ .of_remove rfl rfl
  | drop c =>
    simp only [step, Option.bind_eq_bind, Option.bind_eq_some_iff] at hs
    obtain ⟨call, hc, hs⟩ := hs
    simp only [owner, hc, Option.bind_some] at ho
    cases hpc : call.pc <;> simp only [hpc, reduceCtorEq] at hs
    case invoking e' vals =>
      simp only [hpc, CallPc.entry, Option.some.injEq] at ho
      subst ho
      obtain ⟨x, hx, hs⟩ := Option.bind_eq_some_iff.1 hs
      rw [Option.some.injEq] at hs
      exact hs ▸ .of_update hx rfl rfl (.inr rfl)
    all_goals
      rw [Option.some.injEq] at hs
      exact hs ▸ .of_eq rfl rfl
  | wake i =>
    simp only [step, Option.bind_eq_bind, Option.bind_eq_some_iff] at hs
    obtain ⟨y, -, hs⟩ := hs
    cases hpc : y.pc <;> simp only [hpc, reduceCtorEq] at hs
    split_ifs at hs <;> rw [Option.some.injEq] at hs <;> exact hs ▸ .of_eq rfl rfl
  | expire i =>
    simp only [step, Option.bind_eq_bind, Option.bind_eq_some_iff] at hs
    obtain ⟨y, hy, hs⟩ := hs
    simp only [owner, hy, Option.map_some, Option.some.injEq] at ho
    subst ho
    cases hpc : y.pc <;> simp only [hpc, reduceCtorEq] at hs
    obtain ⟨x, hx, hs⟩ := Option.bind_eq_some_iff.1 hs
    split_ifs at hs with hl
    rw [Option.some.injEq, expire] at hs
    split_ifs at hs
    · exact hs ▸ .of_eq rfl rfl
    all_goals
      split at hs
      · exact hs ▸ .of_eq rfl rfl
      · exact hs ▸ .of_update hx rfl rfl (.inr rfl)
  | called i | callPanicked i =>
    simp only [step, Option.bind_eq_bind, Option.bind_eq_some_iff] at hs
    obtain ⟨y, -, hs⟩ := hs
    cases hpc : y.pc <;> simp only [hpc, reduceCtorEq, Option.some.injEq] at hs
    exact hs ▸ .of_eq rfl rfl
  | evict i =>
    simp only [step, Option.bind_eq_bind, Option.bind_eq_some_iff] at hs
    obtain ⟨y, hy, hs⟩ := hs
    simp only [owner, hy, Option.map_some, Option.some.injEq] at ho
    subst ho
    cases hpc : y.pc <;> simp only [hpc, reduceCtorEq, Option.some.injEq] at hs
    exact hs ▸ .of_remove rfl rfl

/-- The other steps change no group that exists. -/
theorem step_entries (h : GroupsOk s) (hs : step deadlineOf s a = some t) (ho : owner s a = none)
    {e : ℕ} (he : (s.entries e).isSome) : t.entries e = s.entries e := by
  have hcreate : ∀ c call, (lookup.create s c call).entries e = s.entries e := by
    intro c call
    refine Function.update_of_ne ?_ _ _
    rintro rfl
    rw [h.fresh _ le_rfl] at he
    cases he
  cases a with
  | join c =>
    simp only [step] at hs
    cases hc : s.calls c <;> simp only [hc, reduceCtorEq, Option.some.injEq] at hs
    exact hs ▸ rfl
  | lookup c =>
    simp only [step, Option.bind_eq_bind, Option.bind_eq_some_iff] at hs
    obtain ⟨call, hc, hs⟩ := hs
    cases hpc : call.pc <;> simp only [hpc, reduceCtorEq, Option.some.injEq] at hs
    rw [← hs, JoinStorage.lookup]
    split
    · split_ifs
      · exact hcreate c call
      · rfl
    · exact hcreate c call
  | tick d | cancel context =>
    simp only [step, Option.some.injEq] at hs
    exact hs ▸ rfl
  | lock c | invoked c | remove c | drop c =>
    simp only [step, Option.bind_eq_bind, Option.bind_eq_some_iff] at hs
    obtain ⟨call, hc, hs⟩ := hs
    simp only [owner, hc, Option.bind_some] at ho
    cases hpc : call.pc <;> simp only [hpc, CallPc.entry, reduceCtorEq] at ho hs
    all_goals exact (Option.some.inj hs) ▸ rfl
  | wake i | expire i | called i | callPanicked i | evict i =>
    simp only [step, Option.bind_eq_bind, Option.bind_eq_some_iff] at hs
    obtain ⟨y, hy, -⟩ := hs
    simp only [owner, hy, Option.map_some, reduceCtorEq] at ho

/-- An ended group takes no value. -/
theorem valuesOf_step (h : GroupsOk s) (hs : step deadlineOf s a = some t) {e : ℕ}
    (hp : processedOf (s.entries e) = true) : valuesOf (t.entries e) = valuesOf (s.entries e) := by
  cases ho : owner s a with
  | some e' =>
    by_cases he : e = e'
    · subst he
      exact (step_local hs ho).values hp
    · rw [(step_local hs ho).entries e he]
  | none =>
    rw [step_entries h hs ho]
    cases hx : s.entries e with
    | none => rw [hx] at hp; cases hp
    | some x => rfl

/-! ## Callbacks -/

/-- A callback that a group runs. -/
inductive Callback
  | invoke (call : ℕ)
  | expiry (timer : ℕ)

/-- A callback of group `e` runs, and was given `vals`. -/
def Running (s : State K V) (e : ℕ) (vals : List (List V)) : Callback → Prop
  | .invoke c => ∃ call, s.calls c = some call ∧ call.pc = .invoking e vals
  | .expiry i => ∃ y callback context, s.timers i = some y ∧ y.entry = e ∧
      y.pc = .calling callback context vals

omit [DecidableEq K] in
theorem GroupsOk.running_values (h : GroupsOk s) {e : ℕ} {vals : List (List V)} {r : Callback}
    (hr : Running s e vals r) : vals = valuesOf (s.entries e) := by
  cases r with
  | invoke c =>
    obtain ⟨call, hc, hpc⟩ := hr
    exact (h.invoking c call hc e vals hpc).1
  | expiry i =>
    obtain ⟨y, callback, context, hy, rfl, hpc⟩ := hr
    exact (h.calling i y hy callback context vals hpc).2

omit [DecidableEq K] in
/-- An expiry callback is the end of its group. -/
theorem GroupsOk.running_expiry (h : GroupsOk s) {e i : ℕ} {vals : List (List V)}
    (hr : Running s e vals (.expiry i)) : terminals s.terminal e = [(e, .expired i)] := by
  obtain ⟨y, callback, context, hy, rfl, hpc⟩ := hr
  have hm := mem_terminals.2 (h.calling i y hy callback context vals hpc).1
  have hlen : (terminals s.terminal y.entry).length ≤ 1 := by
    rw [h.records.ended]
    exact Bool.toNat_le _
  obtain ⟨p, hp⟩ := List.length_eq_one_iff.1 (le_antisymm hlen (List.length_pos_of_mem hm))
  rw [hp] at hm ⊢
  rw [List.mem_singleton.1 hm]

omit [DecidableEq K] in
/-- The callbacks of a group do not overlap. -/
theorem GroupsOk.running_unique (h : GroupsOk s) {e : ℕ} {vals vals' : List (List V)}
    {r r' : Callback} (hr : Running s e vals r) (hr' : Running s e vals' r') : r = r' := by
  have hopen : ∀ c vals i vals', Running s e vals (.invoke c) →
      ¬ Running s e vals' (.expiry i) := by
    rintro c vals i vals' ⟨call, hc, hpc⟩ hi
    have hnil := (h.records.open_iff e).2 (h.invoking c call hc e vals hpc).2.1
    rw [h.running_expiry hi] at hnil
    cases hnil
  cases r with
  | invoke c =>
    cases r' with
    | invoke c' =>
      obtain ⟨call, hc, hpc⟩ := hr
      obtain ⟨call', hc', hpc'⟩ := hr'
      have hl := (h.invoking c call hc e vals hpc).2.2
      have hl' := (h.invoking c' call' hc' e vals' hpc').2.2
      rw [Option.some.inj (hl.symm.trans hl')]
    | expiry i => exact absurd hr' (hopen c vals i vals' hr)
  | expiry i =>
    cases r' with
    | invoke c => exact absurd hr (hopen c vals' i vals hr')
    | expiry i' =>
      have heq := (h.running_expiry hr).symm.trans (h.running_expiry hr')
      cases heq
      rfl

/-! ## Main result -/

/-- **Join groups end once.** In every state that calls and timers reach: a call's value is accepted
at most once, and before the call returns; a group holds what was accepted into it, slot by slot and
in order; its callbacks do not overlap, and each was given all the values; it has ended at most once,
and an expiry callback is its end. No step adds a value to a group that has ended, and a step of one
group changes no other group and does not remove one from the map. -/
theorem join_group_terminality (h : (system K V deadlineOf).Reachable s) :
    (s.accepted.map Accepted.call).Nodup ∧
    (∀ a ∈ s.accepted, ∃ call, s.calls a.call = some call ∧ call.index = a.index ∧
      call.value = a.value) ∧
    (∀ c call, s.calls c = some call → call.pc = .returned → ∃ a ∈ s.accepted, a.call = c) ∧
    (∀ e i, (valuesOf (s.entries e)).getD i [] = slot s.accepted e i) ∧
    (∀ e vals vals' r r', Running s e vals r → Running s e vals' r' → r = r') ∧
    (∀ e vals r, Running s e vals r → vals = valuesOf (s.entries e)) ∧
    (∀ e, (terminals s.terminal e).length ≤ 1) ∧
    (∀ e vals i, Running s e vals (.expiry i) → terminals s.terminal e = [(e, .expired i)]) ∧
    ∀ a t, step deadlineOf s a = some t →
      (∀ e, terminals s.terminal e ≠ [] → valuesOf (t.entries e) = valuesOf (s.entries e) ∧
        ∀ i, slot t.accepted e i = slot s.accepted e i) ∧
      ∀ e, owner s a = some e → ∀ e' ≠ e, t.entries e' = s.entries e' ∧
        ∀ k, s.items.lookup k = some e' → t.items.lookup k = some e' := by
  have hg := groupsOk_reachable h
  refine ⟨hg.calls.nodup, fun a ha => ?_, fun c call hc hpc => ?_, hg.records.slots,
    fun e vals vals' r r' => hg.running_unique, fun e vals r => hg.running_values,
    fun e => ?_, fun e vals i => hg.running_expiry, fun a t hs => ⟨fun e he => ?_,
      fun e ho e' hne => ⟨(step_local hs ho).entries e' hne, (step_local hs ho).items e' hne⟩⟩⟩
  · obtain ⟨call, hc, hi, hv, -⟩ := hg.calls.known a ha
    exact ⟨call, hc, hi, hv⟩
  · exact hg.calls.taken c call hc (by rw [hpc]; exact trivial)
  · rw [hg.records.ended]
    exact Bool.toNat_le _
  · have hp : processedOf (s.entries e) = true := by
      by_contra hp
      exact he ((hg.records.open_iff e).2 (Bool.eq_false_iff.2 hp))
    have hv := valuesOf_step hg hs hp
    refine ⟨hv, fun i => ?_⟩
    rw [← (hg.step hs).records.slots, ← hg.records.slots, hv]

/-- A group expires, and a second group of the same key is started while the callback of the first
still runs. -/
def expiredAndReplaced : List (Action ℕ ℕ) :=
  [.join 0 0 7 0 10 0 5 false, .lookup 0, .lock 0, .invoked 0 false, .tick 5, .wake 0, .expire 0,
    .join 1 1 7 1 20 1 5 false, .lookup 1, .lock 1]

theorem expiredAndReplaced_runs :
    ((system ℕ ℕ fun _ => none).run .init expiredAndReplaced).isSome := by
  decide +kernel

theorem join_group_terminality_expiredAndReplaced :
    ∃ s, (system ℕ ℕ fun _ => none).Reachable s ∧ s.items.lookup 7 = some 1 ∧
      Running s 0 [[10]] (.expiry 0) ∧ Running s 1 [[], [20]] (.invoke 1) ∧
      terminals s.terminal 0 = [(0, .expired 0)] ∧
      ∀ t, step (fun _ => none) s (.called 0) = some t → t.items.lookup 7 = some 1 := by
  have h := System.reachable_get expiredAndReplaced_runs
  obtain ⟨-, -, -, -, -, -, -, hexp, hstep⟩ := join_group_terminality h
  set s := ((system ℕ ℕ fun _ => none).run .init expiredAndReplaced).get expiredAndReplaced_runs
  have h₇ : s.items.lookup 7 = some 1 := by decide +kernel
  have hrun : Running s 0 [[10]] (.expiry 0) := ⟨_, _, _, rfl, rfl, rfl⟩
  have hown : owner s (.called 0) = some 0 := rfl
  exact ⟨s, h, h₇, hrun, ⟨_, rfl, rfl⟩, hexp 0 _ 0 hrun,
    fun t ht => ((hstep _ t ht).2 0 hown 1 Nat.one_ne_zero).2 7 h₇⟩

end JoinStorage

end ServiceLib
