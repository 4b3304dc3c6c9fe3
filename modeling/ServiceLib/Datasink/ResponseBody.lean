import ServiceLib.History
import ServiceLib.Transition

/-!
# Response bodies of the HTTP sink

Follows `ResponseBody::poll_read` and `close_response_body` in `src/datasink/http/reqwest.rs`. The
reader of the transport is retired when it ends or fails. The body is closed by its owner or by the
guard of the endpoint.

**Theorem (`body_faithful`).** The body delivers what the reader produces, an end of file is the
reader's own, a closed body fails every read, and closing wakes a pending read, if and only if no
read into a non-empty buffer is made after the reader has failed and before the body is closed. Such
a read finds no reader and reports an end of file (`failure_reads_as_end`).

The idea: what a read gets depends on whether the body was closed and whether the reader was retired
before (`Answered`), but no longer on why it was retired.
-/

namespace ServiceLib

namespace ResponseBody

/-! ## Reads -/

inductive ErrorKind
  | brokenPipe
  | connectionReset
  | other (code : ℕ)

structure IoError where
  kind : ErrorKind
  message : String

def closedError : IoError := ⟨.brokenPipe, "HTTP response body is closed"⟩

/-- `Poll<io::Result<()>>`. -/
inductive Poll
  | pending
  | ready (result : Except IoError Unit)

/-- What the reader of the transport does when it is polled: what it fills in, and its result. -/
structure ReaderPoll where
  bytes : List UInt8
  result : Poll

/-- A call of `poll_read` with a buffer that has `remaining` bytes free. It may not poll the
reader. -/
structure Read where
  waker : ℕ
  remaining : ℕ
  polled : Option ReaderPoll
  bytes : List UInt8
  result : Poll

inductive Event
  | read (r : Read)
  /-- Closed by its owner or by the guard, with the waker that was woken. -/
  | closed (woken : Option ℕ)

structure State where
  reader : Bool
  closed : Bool
  waker : Option ℕ
  history : List Event

def State.init : State := ⟨true, false, none, []⟩

inductive Action
  /-- `poll` is what the reader does if it is polled. -/
  | pollRead (waker remaining : ℕ) (poll : ReaderPoll)
  /-- `close`, or the drop of the guard. -/
  | close

/-- `reader.as_mut().poll_read(cx, buffer)` and what follows. -/
def pollReader (s : State) (waker remaining : ℕ) (poll : ReaderPoll) : State :=
  { s with
    reader :=
      match poll.result with
      | .ready (.ok ()) => !poll.bytes.isEmpty
      | .ready (.error _) => false
      | .pending => s.reader
    waker :=
      match poll.result with
      | .ready _ => none
      | .pending => some waker
    history := s.history ++ [.read ⟨waker, remaining, some poll, poll.bytes, poll.result⟩] }

/-- A read that does not poll the reader. -/
def State.answer (s : State) (waker remaining : ℕ) (result : Except IoError Unit) : State :=
  { s with history := s.history ++ [.read ⟨waker, remaining, none, [], .ready result⟩] }

def pollRead (s : State) (waker remaining : ℕ) (poll : ReaderPoll) : State :=
  if remaining = 0 then s.answer waker remaining (.ok ())
  else if s.closed then s.answer waker remaining (.error closedError)
  else if s.reader then pollReader s waker remaining poll
  else s.answer waker remaining (.ok ())

/-- `close_response_body`. -/
def close (s : State) : State where
  reader := false
  closed := true
  waker := none
  history := s.history ++ [.closed s.waker]

def step (s : State) : Action → Option State
  | .pollRead waker remaining poll =>
    if poll.bytes.length ≤ remaining then some (pollRead s waker remaining poll) else none
  | .close => some (close s)

def system : System State Action where
  init := .init
  step := step

/-! ## What has happened -/

def Event.produced : Event → List UInt8
  | .read r => (r.polled.map ReaderPoll.bytes).getD []
  | .closed _ => []

def Event.delivered : Event → List UInt8
  | .read r => r.bytes
  | .closed _ => []

def Event.isClosed : Event → Bool
  | .closed _ => true
  | .read _ => false

/-- The reader itself reported the end. -/
def Event.readerEnded : Event → Bool
  | .read ⟨_, _, some ⟨[], .ready (.ok ())⟩, _, _⟩ => true
  | _ => false

def Event.readerFailed : Event → Bool
  | .read ⟨_, _, some ⟨_, .ready (.error _)⟩, _, _⟩ => true
  | _ => false

/-- A read into a non-empty buffer. -/
def Event.isRead : Event → Bool
  | .read r => r.remaining ≠ 0
  | .closed _ => false

/-- The read reports the end of the file. -/
def Event.endOfFile : Event → Bool
  | .read ⟨_, _, _, [], .ready (.ok ())⟩ => true
  | _ => false

def Event.failed : Event → Bool
  | .read ⟨_, _, _, _, .ready (.error _)⟩ => true
  | _ => false

/-- The waker of the last read into a non-empty buffer, if it is pending. -/
def pendingRead (history : List Event) : Option ℕ :=
  history.foldl (fun pending event =>
    match event with
    | .read r =>
      if r.remaining = 0 then pending
      else
        match r.result with
        | .pending => some r.waker
        | .ready _ => none
    | .closed _ => none) none

/-! ## What is claimed -/

/-- An end of file is the reader's. -/
def EndIsTrue (before : List Event) (event : Event) : Prop :=
  event.isRead → event.endOfFile → (before ++ [event]).any Event.readerEnded

def ClosedFails (before : List Event) (event : Event) : Prop :=
  event.isRead → before.any Event.isClosed → event.failed

def CloseWakes (before : List Event) (event : Event) : Prop :=
  ∀ woken waker, event = .closed woken → pendingRead before = some waker → woken = some waker

/-- The read is not made between a failure of the reader and the closing of the body. -/
def NotAfterFailure (before : List Event) (event : Event) : Prop :=
  event.isRead → before.any Event.readerFailed → before.any Event.isClosed

/-! ## What a read gets -/

def retired (history : List Event) : Bool :=
  history.any Event.readerEnded || history.any Event.readerFailed

/-- What `poll_read` gives for a non-empty buffer. -/
def Answered (before : List Event) : Event → Prop
  | .read r => r.remaining ≠ 0 →
    if before.any Event.isClosed then
      r.polled = none ∧ r.bytes = [] ∧ r.result = .ready (.error closedError)
    else if retired before then r.polled = none ∧ r.bytes = [] ∧ r.result = .ready (.ok ())
    else ∃ poll, r.polled = some poll ∧ r.bytes = poll.bytes ∧ r.result = poll.result
  | .closed _ => True

structure Ok (s : State) : Prop where
  closed : s.closed = s.history.any Event.isClosed
  reader : s.closed = false → s.reader = !retired s.history
  gone : s.closed = true → s.reader = false
  idle : s.reader = false → s.waker = none
  waker : pendingRead s.history = s.waker
  once : (s.history.any Event.readerEnded && s.history.any Event.readerFailed) = false
  answered : Each Answered s.history
  wakes : Each CloseWakes s.history
  delivered : s.history.flatMap Event.delivered = s.history.flatMap Event.produced

theorem ok_init : Ok .init where
  closed := rfl
  reader := fun _ => rfl
  gone := fun hclosed => absurd hclosed Bool.false_ne_true
  idle := fun _ => rfl
  waker := rfl
  once := rfl
  answered := each_nil
  wakes := each_nil
  delivered := rfl

theorem ok_close {s : State} (h : Ok s) : Ok (close s) where
  closed := by simp [close, Event.isClosed]
  reader := fun hclosed => absurd hclosed.symm Bool.false_ne_true
  gone := fun _ => rfl
  idle := fun _ => rfl
  waker := by simp [close, pendingRead]
  once := by
    have honce := h.once
    simpa [close, Event.readerEnded, Event.readerFailed] using honce
  answered := each_concat.mpr ⟨h.answered, trivial⟩
  wakes := by
    refine each_concat.mpr ⟨h.wakes, ?_⟩
    rintro woken waker heq hpending
    cases heq
    rw [← h.waker, hpending]
  delivered := by
    simp only [close, List.flatMap_append, h.delivered]
    rfl

theorem ok_answer {s : State} (h : Ok s) {waker remaining : ℕ} {result : Except IoError Unit}
    (hanswer : Answered s.history (.read ⟨waker, remaining, none, [], .ready result⟩))
    (hreader : remaining ≠ 0 → s.reader = false) : Ok (s.answer waker remaining result) where
  closed := by
    have hclosed := h.closed
    simpa [State.answer, Event.isClosed] using hclosed
  reader := by
    intro hclosed
    have hreader := h.reader hclosed
    simpa [State.answer, retired, Event.readerEnded, Event.readerFailed] using hreader
  gone := h.gone
  idle := h.idle
  waker := by
    have hpending := h.waker
    simp only [State.answer, pendingRead, List.foldl_append] at hpending ⊢
    rw [hpending]
    show (if remaining = 0 then s.waker else none) = s.waker
    split
    case isTrue => rfl
    case isFalse hne => exact (h.idle (hreader hne)).symm
  once := by
    have honce := h.once
    simpa [State.answer, Event.readerEnded, Event.readerFailed] using honce
  answered := each_concat.mpr ⟨h.answered, hanswer⟩
  wakes := each_concat.mpr ⟨h.wakes, by rintro woken waker heq; cases heq⟩
  delivered := by
    simp only [State.answer, List.flatMap_append, h.delivered]
    rfl

theorem ok_pollReader {s : State} (h : Ok s) {waker remaining : ℕ} (poll : ReaderPoll)
    (hremaining : remaining ≠ 0) (hclosed : s.closed = false) (hreader : s.reader = true) :
    Ok (pollReader s waker remaining poll) := by
  have hretired : retired s.history = false := by simpa [hreader] using h.reader hclosed
  obtain ⟨hended, hfailed⟩ := Bool.or_eq_false_iff.mp hretired
  obtain ⟨bytes, result⟩ := poll
  constructor
  case closed =>
    have hany := h.closed
    simpa [pollReader, Event.isClosed] using hany
  case reader =>
    intro _
    rcases result with _ | ⟨_ | ⟨⟩⟩ <;> cases bytes <;>
      simp [pollReader, retired, hended, hfailed, hreader, Event.readerEnded, Event.readerFailed]
  case gone =>
    intro hgone
    rw [show (pollReader s waker remaining ⟨bytes, result⟩).closed = s.closed from rfl,
      hclosed] at hgone
    exact absurd hgone Bool.false_ne_true
  case idle =>
    intro hidle
    cases result with
    | pending =>
      rw [show (pollReader s waker remaining ⟨bytes, .pending⟩).reader = s.reader from rfl,
        hreader] at hidle
      exact absurd hidle.symm Bool.false_ne_true
    | ready => rfl
  case waker =>
    simp only [pollReader, pendingRead, List.foldl_append, List.foldl_cons, List.foldl_nil,
      if_neg hremaining]
    cases result <;> rfl
  case once =>
    rcases result with _ | ⟨_ | ⟨⟩⟩ <;> cases bytes <;>
      simp [pollReader, hended, hfailed, Event.readerEnded, Event.readerFailed]
  case answered =>
    refine each_concat.mpr ⟨h.answered, fun _ => ?_⟩
    rw [← h.closed, hclosed, if_neg Bool.false_ne_true, hretired, if_neg Bool.false_ne_true]
    exact ⟨_, rfl, rfl, rfl⟩
  case wakes => exact each_concat.mpr ⟨h.wakes, by rintro woken waker heq; cases heq⟩
  case delivered =>
    simp only [pollReader, List.flatMap_append, h.delivered]
    rfl

theorem ok_pollRead {s : State} (h : Ok s) (waker remaining : ℕ) (poll : ReaderPoll) :
    Ok (pollRead s waker remaining poll) := by
  unfold pollRead
  split
  case isTrue hzero => exact ok_answer h (fun hne => absurd hzero hne) (absurd hzero)
  case isFalse hremaining =>
    split
    case isTrue hclosed =>
      apply ok_answer h
      · intro _
        rw [← h.closed, if_pos hclosed]
        exact ⟨rfl, rfl, rfl⟩
      · exact fun _ => h.gone hclosed
    case isFalse hopen =>
      have hclosed := Bool.not_eq_true _ |>.mp hopen
      split
      case isTrue hreader => exact ok_pollReader h poll hremaining hclosed hreader
      case isFalse hnone =>
        have hreader := Bool.not_eq_true _ |>.mp hnone
        apply ok_answer h
        · intro _
          have hretired : retired s.history = true := by
            simpa [hreader] using h.reader hclosed
          rw [← h.closed, if_neg hopen, if_pos hretired]
          exact ⟨rfl, rfl, rfl⟩
        · exact fun _ => hreader

theorem ok_step {s t : State} {a : Action} (h : Ok s) (hs : step s a = some t) : Ok t := by
  cases a with
  | close =>
    cases hs
    exact ok_close h
  | pollRead waker remaining poll =>
    obtain ⟨-, heq⟩ := Option.ite_none_right_eq_some.mp hs
    cases heq
    exact ok_pollRead h waker remaining poll

theorem ok {s : State} (h : system.Reachable s) : Ok s :=
  System.Reachable.invariant (S := system) ok_init (fun _ _ _ hi hs => ok_step hi hs) h

/-! ## The claim -/

/-- A closed body fails the read. -/
theorem closedFails_of_answered {before : List Event} {event : Event}
    (h : Answered before event) : ClosedFails before event := by
  intro hread hclosed
  cases event with
  | closed => exact absurd hread Bool.false_ne_true
  | read r =>
    have hanswered := h (of_decide_eq_true hread)
    rw [if_pos hclosed] at hanswered
    obtain ⟨_, _, _, _, result⟩ := r
    obtain ⟨-, -, rfl⟩ := hanswered
    rfl

theorem readerEnded_polled (waker remaining : ℕ) (poll : ReaderPoll) :
    (Event.read ⟨waker, remaining, some poll, poll.bytes, poll.result⟩).readerEnded =
      (Event.read ⟨waker, remaining, some poll, poll.bytes, poll.result⟩).endOfFile := by
  obtain ⟨bytes, result⟩ := poll
  rcases result with _ | ⟨_ | ⟨⟩⟩ <;> cases bytes <;> rfl

/-- The read is true to the reader, unless it is made after a failure. -/
theorem endIsTrue_of_answered {before : List Event} {event : Event} (h : Answered before event)
    (hspared : NotAfterFailure before event) : EndIsTrue before event := by
  intro hread hend
  cases event with
  | closed => exact absurd hread Bool.false_ne_true
  | read r =>
    have hanswered := h (of_decide_eq_true hread)
    rw [List.any_append]
    obtain ⟨waker, remaining, polled, bytes, result⟩ := r
    split at hanswered
    case isTrue =>
      obtain ⟨-, rfl, rfl⟩ := hanswered
      cases hend
    case isFalse hopen =>
      split at hanswered
      case isTrue hretired =>
        obtain hended | hfailed := Bool.or_eq_true_iff.mp hretired
        · rw [hended]
          rfl
        · exact absurd (hspared hread hfailed) hopen
      case isFalse =>
        obtain ⟨poll, hpolled, hbytes, hresult⟩ := hanswered
        cases hpolled
        cases hbytes
        cases hresult
        rw [List.any_cons, readerEnded_polled, hend]
        exact Bool.or_true _

/-- A read after a failure reports an end that never was. -/
theorem notAfterFailure_of_endIsTrue {before : List Event} {event : Event}
    (h : Answered before event) (hend : EndIsTrue before event)
    (honce : ((before ++ [event]).any Event.readerEnded &&
      (before ++ [event]).any Event.readerFailed) = false) :
    NotAfterFailure before event := by
  intro hread hfailed
  by_contra hopen
  cases event with
  | closed => exact absurd hread Bool.false_ne_true
  | read r =>
    have hanswered := h (of_decide_eq_true hread)
    have hretired : retired before = true := by rw [retired, hfailed, Bool.or_true]
    rw [if_neg hopen, if_pos hretired] at hanswered
    obtain ⟨waker, remaining, polled, bytes, result⟩ := r
    obtain ⟨-, rfl, rfl⟩ := hanswered
    have hended := hend hread rfl
    rw [hended, List.any_append, hfailed] at honce
    exact absurd honce.symm Bool.false_ne_true

/-- What the body promises of its history. -/
structure Faithful (history : List Event) : Prop where
  prefix_produced : history.flatMap Event.delivered <+: history.flatMap Event.produced
  endIsTrue : Each EndIsTrue history
  closedFails : Each ClosedFails history
  closeWakes : Each CloseWakes history

theorem any_of_before {p : Event → Bool} {before after history : List Event} {event : Event}
    (heq : history = before ++ event :: after) (h : (before ++ [event]).any p = true) :
    history.any p = true := by
  rw [heq, ← List.singleton_append, ← List.append_assoc, List.any_append, h]
  rfl

/-- **The body is faithful** unless it is read after a failure. -/
theorem body_faithful {s : State} (h : system.Reachable s) :
    Faithful s.history ↔ Each NotAfterFailure s.history := by
  have hok := ok h
  constructor
  · intro hfaithful before event after heq
    apply notAfterFailure_of_endIsTrue (hok.answered before event after heq)
      (hfaithful.endIsTrue before event after heq)
    rw [Bool.and_eq_false_iff]
    by_contra hboth
    rw [not_or, Bool.not_eq_false, Bool.not_eq_false] at hboth
    have honce := hok.once
    rw [any_of_before heq hboth.1, any_of_before heq hboth.2] at honce
    exact absurd honce.symm Bool.false_ne_true
  · intro hspared
    constructor
    · rw [hok.delivered]
    · intro before event after heq
      exact endIsTrue_of_answered (hok.answered before event after heq)
        (hspared before event after heq)
    · intro before event after heq
      exact closedFails_of_answered (hok.answered before event after heq)
    · exact hok.wakes

/-- The reader gives three bytes, then waits; the body is closed meanwhile, and read again. -/
def closedWhilePending : List Action :=
  [.pollRead 0 8 ⟨[1, 2, 3], .ready (.ok ())⟩, .pollRead 7 8 ⟨[], .pending⟩, .close,
    .pollRead 0 8 ⟨[], .pending⟩]

theorem closedWhilePending_runs : (system.run .init closedWhilePending).isSome := by
  decide

theorem body_faithful_closedWhilePending :
    Faithful ((system.run .init closedWhilePending).get closedWhilePending_runs).history := by
  apply (body_faithful (System.reachable_get closedWhilePending_runs)).mpr
  intro before event after heq _ hfailed
  have hnone : ((system.run system.init closedWhilePending).get
      closedWhilePending_runs).history.any Event.readerFailed = false := rfl
  rw [heq, List.any_append, hfailed] at hnone
  exact absurd hnone.symm Bool.false_ne_true

/-- The connection is reset after one byte, and the body is read once more. -/
def readAfterReset : List Action :=
  [.pollRead 0 8 ⟨[1], .ready (.ok ())⟩,
    .pollRead 0 8 ⟨[], .ready (.error ⟨.connectionReset, "body connection reset"⟩)⟩,
    .pollRead 0 8 ⟨[], .pending⟩]

theorem readAfterReset_runs : (system.run .init readAfterReset).isSome := by
  decide

/-- **A read after a failure** reports an end of file. -/
theorem failure_reads_as_end : ∃ s, system.Reachable s ∧ ¬ Faithful s.history := by
  refine ⟨_, System.reachable_get readAfterReset_runs, fun hfaithful => ?_⟩
  have hended := hfaithful.endIsTrue (_ :: _ :: []) _ [] rfl rfl rfl
  exact absurd hended Bool.false_ne_true

end ResponseBody

end ServiceLib
