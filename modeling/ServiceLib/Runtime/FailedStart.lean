import ServiceLib.Datasink.Tonic
import ServiceLib.Datasource.HttpLifecycle
import ServiceLib.Kafka.Sink

/-!
# What a failed start leaves behind

The `start` of the Kafka sink, of the HTTP source and of the gRPC sink, in
`src/datasink/kafka/rdkafka.rs`, `src/datasource/http/axum.rs` and `src/datasink/grpc/tonic.rs`.
Each first marks its connector as started. Some of its errors take the mark back, others leave through `?` and keep it; then a second
`start` finds the connector already started.

**Theorem (`failed_start_restores`).** A `start` that returns an error, other than that of a
connector that was started or stopped before, leaves the mark as it was

* for the Kafka sink, unless it has got as far as the security settings and fails there, in making
  the statistics context, or in fetching the metadata of the topics;
* for the HTTP source, exactly if there is a configuration for it, so that binding has failed;
* for the gRPC sink, never.

The configuration and the answers of the brokers and of the network are arbitrary. While the call
runs, sends and requests go on, and there is no other `start` and no `stop`.
-/

namespace ServiceLib

/-! ## The Kafka sink -/

namespace KafkaSink

/-- What a `start` reads and is told. -/
structure Answers where
  runtime : RuntimeConfig
  native : Native
  topics : Except String Unit
  metadata : Except String (List (ℤ × ℤ))

/-- A step of a send, or a context that is cancelled. -/
def Action.isSend : Action → Bool
  | .spawn _ | .sendSync | .check _ | .locate _ | .delivered _ _ | .finish _ | .dropSend _
  | .cancel _ => true
  | _ => false

/-- The start `i` gets these answers; sends go on, and there is no other `start` and no `stop`. -/
def Answers.Allow (answers : Answers) (i : ℕ) : Action → Prop
  | .configure j runtime native => j = i ∧ runtime = answers.runtime ∧ native = answers.native
  | .topics j result => j = i ∧ result = answers.topics
  | .metadata j result => j = i ∧ result = answers.metadata
  | .publish j | .store j | .dropStart j => j = i
  | a => a.isSend = true

variable {id : ℤ} {name : String} {answers : Answers} {s u v : State} {a : Action} {i : ℕ}

/-- The endpoints and the connector are configured, and some endpoint is enabled. -/
def Configured (id : ℤ) (name : String) (endpoints : List (ℤ × EndpointState))
    (runtime : RuntimeConfig) (connector : ConnectorConfig) : Prop :=
  (∃ enabled, (configureEndpoints runtime endpoints).2 = .ok enabled ∧ enabled ≠ []) ∧
    connectorOf id name runtime = .ok connector

/-- The errors that are passed on by `?`: of the security settings, of the statistics context, and
of the metadata. -/
def Answers.PassedOn (answers : Answers) (id : ℤ) (name : String)
    (endpoints : List (ℤ × EndpointState)) : Prop :=
  ∃ connector, Configured id name endpoints answers.runtime connector ∧
    ((∃ error, applySecurity connector = .error error) ∨
      (∃ error, answers.native = .statisticsFailed error) ∨
      (answers.native = .created ∧ answers.topics = .ok () ∧
        ∃ error, answers.metadata = .error error))

/-- The clients are made. -/
def Answers.Made (answers : Answers) (id : ℤ) (name : String)
    (endpoints : List (ℤ × EndpointState)) : Prop :=
  ∃ connector, Configured id name endpoints answers.runtime connector ∧
    applySecurity connector = .ok () ∧ answers.native = .created

/-- Where the start stands, and how it has come there. -/
def Answers.At (answers : Answers) (id : ℤ) (name : String) (endpoints : List (ℤ × EndpointState))
    (u : State) : StartPc → Prop
  | .configuring => u.state = 1 ∧ u.endpoints = endpoints
  | .creatingTopics _ => u.state = 1 ∧ answers.Made id name endpoints
  | .fetchingMetadata _ => u.state = 1 ∧ answers.Made id name endpoints ∧ answers.topics = .ok ()
  | .publishing => u.state = 1
  | .storing state result => u.state = 1 ∧
      ∀ error, result = .error error → state = 0 ∧ ¬ answers.PassedOn id name endpoints
  | .returned _ | .dropped => True

/-- `start` has returned an error, and has taken the mark back or not. -/
def Answers.Returned (answers : Answers) (id : ℤ) (name : String)
    (endpoints : List (ℤ × EndpointState)) (v : State) : StartPc → Prop
  | .returned (.error _) => v.state = 0 ↔ ¬ answers.PassedOn id name endpoints
  | _ => True

theorem finish_frame (s : State) (j : ℕ) (x : Send) :
    (finish s j x).state = s.state ∧ (finish s j x).starts = s.starts ∧
      (finish s j x).endpoints = s.endpoints := by
  unfold finish notify
  dsimp only
  split_ifs <;> exact ⟨rfl, rfl, rfl⟩

/-- Sends do not touch the lifecycle. -/
theorem send_frame (hs : step id name u a = some v) (ha : a.isSend = true) :
    v.state = u.state ∧ v.starts = u.starts ∧ v.endpoints = u.endpoints := by
  cases a with
  | spawn p | sendSync | cancel context =>
    cases hs
    exact ⟨rfl, rfl, rfl⟩
  | check j =>
    simp only [step, Option.bind_eq_bind, Option.bind_eq_some_iff] at hs
    obtain ⟨x, -, hs⟩ := hs
    split at hs
    · split_ifs at hs <;> cases hs <;> exact ⟨rfl, rfl, rfl⟩
    · cases hs
  | locate j =>
    simp only [step, Option.bind_eq_bind, Option.bind_eq_some_iff] at hs
    obtain ⟨x, -, hs⟩ := hs
    split at hs
    · split at hs <;> cases hs <;> exact ⟨rfl, rfl, rfl⟩
    · cases hs
  | delivered j result =>
    simp only [step, Option.bind_eq_bind, Option.bind_eq_some_iff] at hs
    obtain ⟨x, -, hs⟩ := hs
    split at hs <;> cases hs
    exact ⟨rfl, rfl, rfl⟩
  | finish j | dropSend j =>
    simp only [step, Option.bind_eq_bind, Option.bind_eq_some_iff] at hs
    obtain ⟨x, -, hs⟩ := hs
    split at hs <;> cases hs
    exact finish_frame u j x
  | _ => cases ha

/-! ### One start -/

theorem setStart_self (u : State) (i : ℕ) (pc : StartPc) : (u.setStart i pc).starts i = some pc :=
  Function.update_self ..

/-- The mark stays when an error is passed on. -/
theorem passedOn_iff (hstate : v.state = 1) (h : answers.PassedOn id name endpoints) :
    v.state = 0 ↔ ¬ answers.PassedOn id name endpoints := by
  rw [hstate]
  exact ⟨fun h0 => absurd h0 Nat.one_ne_zero, fun hn => absurd h hn⟩

/-- Behind the security settings, the errors passed on are those of the statistics context and, with
the clients made, of the metadata. -/
theorem Configured.made {connector : ConnectorConfig}
    (h : Configured id name endpoints answers.runtime connector)
    (hsec : applySecurity connector = .ok ()) (hpassed : answers.PassedOn id name endpoints) :
    (∃ error, answers.native = .statisticsFailed error) ∨
      (answers.native = .created ∧ answers.topics = .ok () ∧
        ∃ error, answers.metadata = .error error) := by
  obtain ⟨connector', hconf, hcause⟩ := hpassed
  have hsame := h.2.symm.trans hconf.2
  cases hsame
  rcases hcause with ⟨error, hsec'⟩ | hcause
  · rw [hsec] at hsec'
    cases hsec'
  · exact hcause

/-- How the part of `start` before the first `await` ends. -/
theorem configure_at (hstate : u.state = 1) (hendpoints : u.endpoints = endpoints) :
    ∃ pc, (configure id name u i answers.runtime answers.native).starts i = some pc ∧
      answers.At id name endpoints (configure id name u i answers.runtime answers.native) pc ∧
      answers.Returned id name endpoints
        (configure id name u i answers.runtime answers.native) pc := by
  subst hendpoints
  unfold configure
  -- an error of the loop or of the connector is not one of those passed on
  have hloop : ∀ {error}, (configureEndpoints answers.runtime u.endpoints).2 = .error error →
      ¬ answers.PassedOn id name u.endpoints := by
    rintro error he ⟨connector, ⟨⟨enabled, hok, -⟩, -⟩, -⟩
    rw [he] at hok
    cases hok
  have hconnector : ∀ {error}, connectorOf id name answers.runtime = .error error →
      ¬ answers.PassedOn id name u.endpoints := by
    rintro error he ⟨connector, ⟨-, hok⟩, -⟩
    rw [he] at hok
    cases hok
  cases hresult : (configureEndpoints answers.runtime u.endpoints).2 with
  | error error =>
    simp only [hresult]
    refine ⟨_, setStart_self _ _ _, ⟨hstate, fun _ _ => ⟨rfl, hloop hresult⟩⟩, trivial⟩
  | ok enabled =>
    simp only [hresult]
    by_cases hempty : enabled.isEmpty = true
    · rw [if_pos hempty]
      exact ⟨_, setStart_self _ _ _, ⟨hstate, fun _ he => by cases he⟩, trivial⟩
    · rw [if_neg hempty]
      have hne : enabled ≠ [] := fun h => hempty (h ▸ rfl)
      cases hc : connectorOf id name answers.runtime with
      | error error =>
        exact ⟨_, setStart_self _ _ _, ⟨hstate, fun _ _ => ⟨rfl, hconnector hc⟩⟩, trivial⟩
      | ok connector =>
        have hconf : Configured id name u.endpoints answers.runtime connector :=
          ⟨⟨enabled, hresult, hne⟩, hc⟩
        dsimp only
        cases hsec : applySecurity connector with
        | error error =>
          refine ⟨_, setStart_self _ _ _, trivial, ?_⟩
          exact passedOn_iff hstate ⟨connector, hconf, Or.inl ⟨error, hsec⟩⟩
        | ok _ =>
          dsimp only
          cases hnative : answers.native with
          | statisticsFailed error =>
            refine ⟨_, setStart_self _ _ _, trivial, ?_⟩
            exact passedOn_iff hstate ⟨connector, hconf, Or.inr (Or.inl ⟨error, hnative⟩)⟩
          | adminFailed error | producerFailed error =>
            refine ⟨_, setStart_self _ _ _, ⟨hstate, fun _ _ => ⟨rfl, fun hpassed => ?_⟩⟩, trivial⟩
            exact absurd (hconf.made hsec hpassed) (by rw [hnative]; simp)
          | created =>
            exact ⟨_, setStart_self _ _ _, ⟨hstate, connector, hconf, hsec, hnative⟩, trivial⟩

/-- A step that is allowed leaves the start where it is, or moves it on. -/
theorem start_step {pc : StartPc} (hs : step id name u a = some v) (hok : answers.Allow i a)
    (hpc : u.starts i = some pc) (h : answers.At id name endpoints u pc) :
    ∃ pc', v.starts i = some pc' ∧ answers.At id name endpoints v pc' ∧
      (pc' = pc ∨ answers.Returned id name endpoints v pc') := by
  have hsend : a.isSend = true → ∃ pc', v.starts i = some pc' ∧
      answers.At id name endpoints v pc' ∧
      (pc' = pc ∨ answers.Returned id name endpoints v pc') := by
    intro ha
    obtain ⟨hstate, hstarts, hendpoints⟩ := send_frame hs ha
    refine ⟨pc, hstarts ▸ hpc, ?_, Or.inl rfl⟩
    unfold Answers.At at h ⊢
    rw [hstate, hendpoints]
    exact h
  cases a with
  | configure j runtime native =>
    obtain ⟨rfl, rfl, rfl⟩ := hok
    simp only [step, hpc] at hs
    split at hs
    · rename_i hconf
      cases hconf
      cases hs
      obtain ⟨pc', hpc', hat, hret⟩ := configure_at h.1 h.2
      exact ⟨pc', hpc', hat, Or.inr hret⟩
    · cases hs
  | topics j result =>
    obtain ⟨rfl, rfl⟩ := hok
    simp only [step, hpc] at hs
    split at hs
    · rename_i enabled hconf
      cases hconf
      obtain ⟨hstate, connector, hconf, hsec, hnative⟩ := h
      split at hs
      · rename_i htopics
        cases hs
        exact ⟨_, setStart_self _ _ _, ⟨hstate, ⟨connector, hconf, hsec, hnative⟩, htopics⟩,
          Or.inr trivial⟩
      · rename_i error htopics
        cases hs
        refine ⟨_, setStart_self _ _ _, ⟨hstate, fun _ _ => ⟨rfl, fun hpassed => ?_⟩⟩,
          Or.inr trivial⟩
        rcases hconf.made hsec hpassed with ⟨e, hn⟩ | ⟨-, hok, -⟩
        · rw [hnative] at hn
          cases hn
        · rw [htopics] at hok
          cases hok
    · cases hs
  | metadata j result =>
    obtain ⟨rfl, rfl⟩ := hok
    simp only [step, hpc] at hs
    split at hs
    · rename_i enabled hconf
      cases hconf
      obtain ⟨hstate, ⟨connector, hconf, hsec, hnative⟩, htopics⟩ := h
      split at hs
      · cases hs
        exact ⟨_, setStart_self _ _ _, hstate, Or.inr trivial⟩
      · rename_i error hmeta
        cases hs
        refine ⟨_, setStart_self _ _ _, trivial, Or.inr ?_⟩
        exact passedOn_iff hstate
          ⟨connector, hconf, Or.inr (Or.inr ⟨hnative, htopics, error, hmeta⟩)⟩
    · cases hs
  | publish j =>
    obtain rfl : j = i := hok
    simp only [step, hpc] at hs
    split at hs
    · rename_i hconf
      cases hconf
      cases hs
      exact ⟨_, setStart_self _ _ _, ⟨h, fun _ he => by cases he⟩, Or.inr trivial⟩
    · cases hs
  | store j =>
    obtain rfl : j = i := hok
    simp only [step, hpc] at hs
    split at hs
    · rename_i state result hconf
      cases hconf
      cases hs
      refine ⟨_, setStart_self _ _ _, trivial, Or.inr ?_⟩
      cases result with
      | ok _ => trivial
      | error error =>
        obtain ⟨rfl, hnot⟩ := h.2 error rfl
        exact ⟨fun _ => hnot, fun _ => rfl⟩
    · cases hs
  | dropStart j =>
    obtain rfl : j = i := hok
    simp only [step, hpc] at hs
    split at hs
    · cases hs
      exact ⟨_, setStart_self _ _ _, trivial, Or.inr trivial⟩
    · cases hs
      exact ⟨_, setStart_self _ _ _, trivial, Or.inr trivial⟩
    · cases hs
  | spawn p | sendSync | check j | locate j | delivered j r | finish j | dropSend j
  | cancel context => exact hsend rfl
  | start j | stop j context | close j | waited j | stopCancelled j | flush j success
  | dropStop j => cases hok

/-- The mark after an error of `start`. -/
theorem failed_start_state {s₁ : State} {pc : StartPc} {error : RuntimeError} (hs : s.state = 0)
    (hstart : step id name s (.start i) = some s₁)
    (hreach : ((system id name []).startedAt s₁).Reach (fun _ => answers.Allow i) u)
    (hpc : u.starts i = some pc) (hrunning : pc ≠ .returned (.error error))
    (hok : answers.Allow i a) (hlast : step id name u a = some v)
    (hreturned : v.starts i = some (.returned (.error error))) :
    v.state = s.state ↔ ¬ answers.PassedOn id name s.endpoints := by
  have hinit : ∃ pc, s₁.starts i = some pc ∧ answers.At id name s.endpoints s₁ pc := by
    simp only [step, hs] at hstart
    split at hstart
    · cases hstart
    · cases hstart
      exact ⟨_, setStart_self _ _ _, rfl, rfl⟩
  have hret := hreach.moved (f := fun w => w.starts i) hinit
    (fun _ _ _ _ hw hb hpc hat => start_step hw hb hpc hat) hok hlast hpc hreturned hrunning.symm
  rw [hs]
  exact hret

end KafkaSink

/-! ## The HTTP source -/

namespace HttpSource

/-- What a `start` reads and is told. -/
structure Answers where
  connector : Option RuntimeDataConnectorConfig
  bind : Except String Unit

/-- A step of a request or of a server, or a context that is cancelled. -/
def Action.isRequest : Action → Bool
  | .arrive _ | .check _ | .track _ | .disconnect _ | .finish _ | .serverEnds _ _ | .cancel _ => true
  | _ => false

/-- The start `i` gets these answers; requests go on, and there is no other `start` and no `stop`. -/
def Answers.Allow (answers : Answers) (i : ℕ) : Action → Prop
  | .configure j connector => j = i ∧ connector = answers.connector
  | .bind j result => j = i ∧ result = answers.bind
  | .reopen j | .spawn j | .store j | .dropStart j => j = i
  | a => a.isRequest = true

variable {source : Source} {answers : Answers} {s u v : State} {a : Action} {i : ℕ}

/-- There is a configuration for the source. -/
def Answers.Configured (answers : Answers) (source : Source) : Prop :=
  ∃ config, connectorConfig source.id source.name source.debug answers.connector = .ok config

/-- Where the start stands, and how it has come there. -/
def Answers.At (answers : Answers) (source : Source) (u : State) : StartPc → Prop
  | .configuring => u.started = true
  | .reopening _ | .binding => answers.Configured source
  | .spawning | .storing _ | .returned _ | .dropped => True

/-- `start` has returned an error, and has taken the mark back or not. -/
def Answers.Returned (answers : Answers) (source : Source) (v : State) : StartPc → Prop
  | .returned (.error _) => v.started = false ↔ answers.Configured source
  | _ => True

theorem notify_frame_start (s : State) :
    s.notify.started = s.started ∧ s.notify.starts = s.starts := by
  unfold State.notify
  split_ifs <;> exact ⟨rfl, rfl⟩

theorem stepRequest_frame {j : ℕ} {r : Request} (hs : stepRequest u j r a = some v) :
    v.started = u.started ∧ v.starts = u.starts := by
  cases a with
  | check k | track k | disconnect k =>
    simp only [stepRequest] at hs
    split at hs <;> cases hs <;> exact ⟨rfl, rfl⟩
  | finish k =>
    simp only [stepRequest] at hs
    split at hs <;> cases hs
    exact notify_frame_start _
  | _ => cases hs

/-- Requests do not touch the lifecycle. -/
theorem request_frame (hs : step source u a = some v) (ha : a.isRequest = true) :
    v.started = u.started ∧ v.starts = u.starts := by
  cases a with
  | arrive server =>
    simp only [step] at hs
    split_ifs at hs
    cases hs
    exact ⟨rfl, rfl⟩
  | check j | track j | disconnect j | finish j =>
    obtain ⟨r, -, hs⟩ := Option.bind_eq_some_iff.1 hs
    exact stepRequest_frame hs
  | serverEnds k result =>
    simp only [step] at hs
    split at hs
    · cases hs
    · split_ifs at hs
      cases hs
      exact ⟨rfl, rfl⟩
  | cancel context =>
    cases hs
    exact ⟨rfl, rfl⟩
  | _ => cases ha

theorem setStart_starts (u : State) (i : ℕ) (pc : StartPc) : (u.setStart i pc).starts i = some pc :=
  Function.update_self ..

/-- A step of the start itself. -/
theorem stepStart_at {pc : StartPc} (hs : stepStart source u i pc a = some v)
    (hok : answers.Allow i a) (h : answers.At source u pc) :
    ∃ pc', v.starts i = some pc' ∧ answers.At source v pc' ∧ answers.Returned source v pc' := by
  cases a with
  | configure j connector =>
    obtain ⟨-, rfl⟩ := hok
    simp only [stepStart] at hs
    split at hs
    · split at hs
      · rename_i error hconfig
        cases hs
        refine ⟨_, setStart_starts _ _ _, trivial, fun hf => ?_, ?_⟩
        · change u.started = false at hf
          rw [show u.started = true from h] at hf
          cases hf
        · rintro ⟨config, hok⟩
          rw [hconfig] at hok
          cases hok
      · rename_i config hconfig
        cases hs
        exact ⟨_, setStart_starts _ _ _, ⟨config, hconfig⟩, trivial⟩
    · cases hs
  | reopen j =>
    simp only [stepStart] at hs
    split at hs
    · rename_i dedicated
      cases hs
      cases dedicated with
      | true => exact ⟨_, setStart_starts _ _ _, h, trivial⟩
      | false => exact ⟨_, setStart_starts _ _ _, trivial, trivial⟩
    · cases hs
  | bind j result =>
    simp only [stepStart] at hs
    split at hs
    · split at hs
      · cases hs
        exact ⟨_, setStart_starts _ _ _, trivial, trivial⟩
      · cases hs
        exact ⟨_, setStart_starts _ _ _, trivial, fun _ => h, fun _ => rfl⟩
    · cases hs
  | spawn j =>
    simp only [stepStart] at hs
    split at hs <;> cases hs
    exact ⟨_, setStart_starts _ _ _, trivial, trivial⟩
  | store j =>
    simp only [stepStart] at hs
    split at hs
    · split_ifs at hs
      cases hs
      exact ⟨_, setStart_starts _ _ _, trivial, trivial⟩
    · cases hs
  | dropStart j =>
    simp only [stepStart] at hs
    split at hs
    · cases hs
      exact ⟨_, setStart_starts _ _ _, trivial, trivial⟩
    · cases hs
      exact ⟨_, setStart_starts _ _ _, trivial, trivial⟩
    · cases hs
  | _ => cases hs

/-- A step that is allowed leaves the start where it is, or moves it on. -/
theorem start_step {pc : StartPc} (hs : step source u a = some v) (hok : answers.Allow i a)
    (hpc : u.starts i = some pc) (h : answers.At source u pc) :
    ∃ pc', v.starts i = some pc' ∧ answers.At source v pc' ∧
      (pc' = pc ∨ answers.Returned source v pc') := by
  have hown : (u.starts i).bind (fun pc => stepStart source u i pc a) = some v →
      ∃ pc', v.starts i = some pc' ∧ answers.At source v pc' ∧
        (pc' = pc ∨ answers.Returned source v pc') := by
    intro hs
    rw [hpc] at hs
    obtain ⟨pc', hpc', hat, hret⟩ := stepStart_at hs hok h
    exact ⟨pc', hpc', hat, Or.inr hret⟩
  have hrequest : a.isRequest = true → ∃ pc', v.starts i = some pc' ∧ answers.At source v pc' ∧
      (pc' = pc ∨ answers.Returned source v pc') := by
    intro ha
    obtain ⟨hstarted, hstarts⟩ := request_frame hs ha
    refine ⟨pc, hstarts ▸ hpc, ?_, Or.inl rfl⟩
    unfold Answers.At at h ⊢
    rw [hstarted]
    exact h
  cases a with
  | configure j connector =>
    obtain ⟨rfl, -⟩ := id hok
    exact hown hs
  | bind j result =>
    obtain ⟨rfl, -⟩ := id hok
    exact hown hs
  | reopen j | spawn j | store j | dropStart j =>
    obtain rfl : j = i := hok
    exact hown hs
  | arrive server | check j | track j | disconnect j | finish j | serverEnds k r | cancel context =>
    exact hrequest rfl
  | start j | stop j context | close j | signal j | lock j | join j | waited j | stopCancelled j
  | returnOk j | dropStop j => cases hok

/-- The mark after an error of `start`. -/
theorem failed_start_started {s₁ : State} {pc : StartPc} {error : RuntimeError}
    (hs : s.started = false) (hstart : step source s (.start i) = some s₁)
    (hreach : ((system source).startedAt s₁).Reach (fun _ => answers.Allow i) u)
    (hpc : u.starts i = some pc) (hrunning : pc ≠ .returned (.error error))
    (hok : answers.Allow i a) (hlast : step source u a = some v)
    (hreturned : v.starts i = some (.returned (.error error))) :
    v.started = s.started ↔ answers.Configured source := by
  have hinit : ∃ pc, s₁.starts i = some pc ∧ answers.At source s₁ pc := by
    simp only [step, hs] at hstart
    split at hstart
    · cases hstart
    · cases hstart
      exact ⟨_, setStart_starts _ _ _, rfl⟩
  have hret := hreach.moved (f := fun w => w.starts i) hinit
    (fun _ _ _ _ hw hb hpc hat => start_step hw hb hpc hat) hok hlast hpc hreturned hrunning.symm
  rw [hs]
  exact hret

end HttpSource

/-! ## The gRPC sink -/

namespace TonicSink

section FailedStart

variable {Endpoint Authority : Type} {transport : Transport Endpoint Authority} {sink : Sink}
  {s u v : State Endpoint} {a : Action} {i : ℕ} {connector : Option RuntimeDataConnectorConfig}

/-- The call `i` finds `connector` in the configuration; the others do not touch the state. -/
def Allow (connector : Option RuntimeDataConnectorConfig) (i : ℕ) (u : State Endpoint) :
    Action → Prop
  | .call _ _ => True
  | .next c found => (c = i ∧ found = connector) ∨
      (c ≠ i ∧ ∀ x, u.calls c = some x → x.pc ≠ .exchanging ∧ x.pc ≠ .storing)

/-- Where the start stands. -/
def AtStart (u : State Endpoint) (x : Call Endpoint) : Prop :=
  match x.pc with
  | .exchanging => u.state = 0
  | .configuring | .publishing _ | .rewinding => u.state = 1
  | .returned _ => True
  | _ => False

/-- `start` has returned an error, and the mark is there. -/
def Marked (v : State Endpoint) (x : Call Endpoint) : Prop :=
  ∀ error, x.pc = .returned (.error error) → v.state = 1

/-- Only `start` and `stop` touch the state. -/
theorem advance_state {pc pc' : Pc Endpoint} {u' : State Endpoint}
    (h : advance transport sink u found pc = some (u', pc')) (hex : pc ≠ .exchanging)
    (hst : pc ≠ .storing) : u'.state = u.state := by
  cases pc with
  | exchanging => exact absurd rfl hex
  | storing => exact absurd rfl hst
  | checking channels =>
    simp only [advance] at h
    split_ifs at h <;> cases h <;> rfl
  | returned result | took result => cases h
  | _ =>
    cases h
    rfl

/-- A step of the start itself. -/
theorem advance_start {x : Call Endpoint} {pc' : Pc Endpoint} {u' : State Endpoint}
    (h : advance transport sink u found x.pc = some (u', pc')) (hat : AtStart u x) :
    AtStart u' ⟨x.op, pc'⟩ ∧ Marked u' ⟨x.op, pc'⟩ := by
  unfold AtStart at hat
  split at hat
  · rename_i hpc
    rw [hpc] at h
    simp only [advance, hat, if_true, Option.some.injEq, Prod.mk.injEq] at h
    obtain ⟨rfl, rfl⟩ := h
    exact ⟨rfl, fun _ he => by cases he⟩
  · rename_i hpc
    rw [hpc] at h
    cases h
    cases hmake : startChannels transport sink found with
    | ok channels => exact ⟨hat, fun _ he => by cases he⟩
    | error error => exact ⟨trivial, fun _ _ => hat⟩
  · rename_i channels hpc
    rw [hpc] at h
    cases h
    exact ⟨hat, fun _ he => by cases he⟩
  · rename_i hpc
    rw [hpc] at h
    cases h
    exact ⟨trivial, fun _ he => by cases he⟩
  · rename_i result hpc
    rw [hpc] at h
    cases h
  · exact hat.elim

/-- A step that is allowed leaves the start where it is, or moves it on. -/
theorem start_step {x : Call Endpoint} (hs : step transport sink u a = some v)
    (hok : Allow connector i u a) (hx : u.calls i = some x) (h : AtStart u x) :
    ∃ x', v.calls i = some x' ∧ AtStart v x' ∧ (x' = x ∨ Marked v x') := by
  rcases step_cases hs with ⟨c, op, rfl, hnone, rfl⟩ | ⟨c, found, y, u', pc', rfl, hy, hadv, rfl⟩
  · have hne : i ≠ c := by
      rintro rfl
      rw [hx] at hnone
      cases hnone
    exact ⟨x, (setCall_of_ne hne).trans hx, h, Or.inl rfl⟩
  · have hcalls := (advance_moves hadv).1
    by_cases hc : c = i
    · subst hc
      rw [hx] at hy
      cases hy
      obtain ⟨hat, hmarked⟩ := advance_start hadv h
      exact ⟨_, setCall_self, hat, Or.inr hmarked⟩
    · rcases hok with ⟨heq, -⟩ | ⟨-, hother⟩
      · exact absurd heq hc
      · have hstate := advance_state hadv (hother y hy).1 (hother y hy).2
        refine ⟨x, ?_, ?_, Or.inl rfl⟩
        · rw [setCall_of_ne (Ne.symm hc), hcalls]
          exact hx
        · unfold AtStart at h ⊢
          rw [show (u'.setCall c ⟨y.op, pc'⟩).state = u.state from hstate]
          exact h

/-- The mark after an error of `start`. -/
theorem failed_start_marked {s₁ : State Endpoint} {x x' : Call Endpoint} {error : RuntimeError}
    (hs : s.state = 0) (hstart : step transport sink s (.call i .start) = some s₁)
    (hreach : ((system transport sink).startedAt s₁).Reach (Allow connector i) u)
    (hx : u.calls i = some x) (hrunning : x.pc ≠ .returned (.error error))
    (hok : Allow connector i u a) (hlast : step transport sink u a = some v)
    (hx' : v.calls i = some x') (hreturned : x'.pc = .returned (.error error)) :
    v.state ≠ s.state := by
  have hinit : ∃ x, s₁.calls i = some x ∧ AtStart s₁ x := by
    rcases step_cases hstart with ⟨c, op, hc, -, rfl⟩ | ⟨c, found, y, u', pc', hc, -⟩
    · cases hc
      exact ⟨_, setCall_self, hs⟩
    · cases hc
  have hne : x' ≠ x := by
    rintro rfl
    exact hrunning hreturned
  have hmarked := hreach.moved (f := fun w : State Endpoint => w.calls i) hinit
    (fun _ _ _ _ hw hb hx hat => start_step hw hb hx hat) hok hlast hx hx' hne
  rw [hs, hmarked error hreturned]
  exact Nat.one_ne_zero

end FailedStart

end TonicSink

/-! ## The three connectors -/

/-- **Which errors take the mark back.** A `start` of a connector that is neither started nor
stopped, while there is no other `start` and no `stop`, returns an error. Then the lifecycle state of
the Kafka sink is what it was unless the error is one of those passed on, that of the HTTP source
exactly if the source is configured, and that of the gRPC sink never. -/
theorem failed_start_restores (id : ℤ) (name : String) (source : HttpSource.Source)
    {Endpoint Authority : Type} (transport : TonicSink.Transport Endpoint Authority)
    (sink : TonicSink.Sink) :
    (∀ (answers : KafkaSink.Answers) (s s₁ u v : KafkaSink.State)
      (a : KafkaSink.Action) (i : ℕ) (pc : KafkaSink.StartPc) (error : RuntimeError),
      s.state = 0 → KafkaSink.step id name s (.start i) = some s₁ →
      ((KafkaSink.system id name []).startedAt s₁).Reach (fun _ => answers.Allow i) u →
      u.starts i = some pc → pc ≠ .returned (.error error) → answers.Allow i a →
      KafkaSink.step id name u a = some v → v.starts i = some (.returned (.error error)) →
        (v.state = s.state ↔ ¬ answers.PassedOn id name s.endpoints)) ∧
    (∀ (answers : HttpSource.Answers) (s s₁ u v : HttpSource.State)
      (a : HttpSource.Action) (i : ℕ) (pc : HttpSource.StartPc) (error : RuntimeError),
      s.started = false → HttpSource.step source s (.start i) = some s₁ →
      ((HttpSource.system source).startedAt s₁).Reach (fun _ => answers.Allow i) u →
      u.starts i = some pc → pc ≠ .returned (.error error) → answers.Allow i a →
      HttpSource.step source u a = some v → v.starts i = some (.returned (.error error)) →
        (v.started = s.started ↔ answers.Configured source)) ∧
    ∀ (connector : Option TonicSink.RuntimeDataConnectorConfig)
      (s s₁ u v : TonicSink.State Endpoint) (a : TonicSink.Action) (i : ℕ)
      (x x' : TonicSink.Call Endpoint) (error : RuntimeError),
      s.state = 0 → TonicSink.step transport sink s (.call i .start) = some s₁ →
      ((TonicSink.system transport sink).startedAt s₁).Reach (TonicSink.Allow connector i) u →
      u.calls i = some x → x.pc ≠ .returned (.error error) → TonicSink.Allow connector i u a →
      TonicSink.step transport sink u a = some v → v.calls i = some x' →
      x'.pc = .returned (.error error) → v.state ≠ s.state :=
  ⟨fun _ _ _ _ _ _ _ _ _ hs hstart hreach hpc hrunning hok hlast hreturned =>
      KafkaSink.failed_start_state hs hstart hreach hpc hrunning hok hlast hreturned,
    fun _ _ _ _ _ _ _ _ _ hs hstart hreach hpc hrunning hok hlast hreturned =>
      HttpSource.failed_start_started hs hstart hreach hpc hrunning hok hlast hreturned,
    fun _ _ _ _ _ _ _ _ _ _ hs hstart hreach hx hrunning hok hlast hx' hreturned =>
      TonicSink.failed_start_marked hs hstart hreach hx hrunning hok hlast hx' hreturned⟩

def api : HttpSource.Source := ⟨1, "api", String.quote⟩

/-- There is a configuration with a listener of its own, and its port is taken. -/
def portTaken : HttpSource.Answers := ⟨some (.http ⟨true⟩), .error "address in use"⟩

/-- Binding fails: the HTTP source can be started again. -/
theorem failed_bind_restores :
    ∃ s, (HttpSource.system api).Reachable s ∧
      s.starts 0 = some (.returned (.error (.transport "address in use"))) ∧
      s.started = false := by
  have h1 : (HttpSource.system api).Reachable _ := .step (a := .start 0) .init trivial rfl
  have h2 : (HttpSource.system api).Reachable _ :=
    .step (a := .configure 0 portTaken.connector) h1 trivial rfl
  have h3 : (HttpSource.system api).Reachable _ := .step (a := .reopen 0) h2 trivial rfl
  have h4 : (HttpSource.system api).Reachable _ :=
    .step (a := .bind 0 portTaken.bind) h3 trivial rfl
  have hstart : HttpSource.step api .init (.start 0) = some _ := rfl
  have r1 : ((HttpSource.system api).startedAt _).Reach (fun _ => portTaken.Allow 0) _ :=
    .step (a := .configure 0 portTaken.connector)
      (.init (S := (HttpSource.system api).startedAt
        (HttpSource.State.setStart { HttpSource.State.init with started := true } 0 .configuring)))
      ⟨rfl, rfl⟩ rfl
  have r2 : ((HttpSource.system api).startedAt _).Reach (fun _ => portTaken.Allow 0) _ :=
    .step (a := .reopen 0) r1 rfl rfl
  have hiff := (failed_start_restores 1 "sink" api TonicSink.anyAddress TonicSink.inventory).2.1
    portTaken .init _ _ _ (.bind 0 portTaken.bind) 0 .binding (.transport "address in use") rfl
    hstart r2 rfl (by simp) ⟨rfl, rfl⟩ rfl rfl
  exact ⟨_, h4, rfl, hiff.2 ⟨⟨true⟩, rfl⟩⟩

/-! ## Starts that cannot be repeated -/

/-- The connector asks for SASL, without a user. -/
def noUserConfig : KafkaSink.RuntimeConfig where
  endpointById _ := some (.kafka ⟨true, "topic", 1⟩)
  dataConnectorById _ := some (.kafka ⟨"broker", .saslPlaintext, "", ""⟩)

def kafkaTwice : List KafkaSink.Action := [.start 0, .configure 0 noUserConfig .created, .start 1]

def httpTwice : List HttpSource.Action := [.start 0, .configure 0 none, .start 1]

def grpcTwice : List TonicSink.Action :=
  TonicSink.steps 0 .start (TonicSink.connections 0) 2 ++
    TonicSink.steps 1 .start (TonicSink.connections 1) 1

theorem kafkaTwice_runs :
    ((KafkaSink.system 1 "sink" [1]).run (.init [1]) kafkaTwice).isSome := by
  decide +kernel

theorem httpTwice_runs :
    ((HttpSource.system api).run .init httpTwice).isSome := by
  decide +kernel

theorem grpcTwice_runs : ((TonicSink.system TonicSink.anyAddress TonicSink.inventory).run
    (.init String) grpcTwice).isSome := by
  decide +kernel

/-- A Kafka sink without SASL user, an HTTP source without configuration and a gRPC sink without
connections: the first `start` fails, and each further one finds the connector started. -/
theorem failed_start_keeps_mark :
    (∃ s, (KafkaSink.system 1 "sink" [1]).Reachable s ∧
      s.starts 0 = some (.returned (.error (.invalidConfiguration
        "Kafka SASL username and password must both be configured"))) ∧ s.state = 1 ∧
      s.starts 1 = some (.returned (.error (.resourceAlreadyStarted "sink")))) ∧
    (∃ s, (HttpSource.system api).Reachable s ∧
      (∃ message, s.starts 0 = some (.returned (.error (.invalidConfiguration message)))) ∧
      s.started = true ∧
      s.starts 1 = some (.returned (.error (.resourceAlreadyStarted "api")))) ∧
    ∃ s, (TonicSink.system TonicSink.anyAddress TonicSink.inventory).Reachable s ∧
      s.calls 0 = some ⟨.start, .returned (.error (.invalidConfiguration
        "gRPC connections_count must be at least 1"))⟩ ∧ s.state = 1 ∧
      s.calls 1 = some ⟨.start, .returned (.error (.resourceAlreadyStarted "inventory"))⟩ :=
  ⟨⟨_, System.reachable_get (S := KafkaSink.system 1 "sink" [1]) kafkaTwice_runs, rfl, rfl, rfl⟩,
    ⟨_, System.reachable_get (S := HttpSource.system api) httpTwice_runs,
      ⟨_, rfl⟩, rfl, rfl⟩,
    _, System.reachable_get (S := TonicSink.system TonicSink.anyAddress TonicSink.inventory)
      grpcTwice_runs, rfl, rfl, rfl⟩

end ServiceLib
