import Firestone.Error
import Firestone.Lib.Json
import Firestone.Lib.Runs
import Mathlib.Data.List.Induction

/-!
# Dispatch of a REST request

A request runs its action on a worker. The sink of the action passes its events on through a bounded channel, except the
`Result`, which is held back until the action has ended and then sent last, or replaced by an error.

* `step` — one step of the worker or of the receiver. A full channel keeps the worker waiting.
* `Sink.note`, `Sink.terminal` — the bookkeeping of `emit` and the last message, which `finish` sends.
* `collectAction`, `actionResponse` — the aggregate and the streamed response.
* `dispatch_exact` — what a client that stays connected receives, at whatever pace.

Of the events only `Result` is told apart.
-/

namespace Firestone.Rest

open Firestone.Lib

variable {ε : Type}

/-! ## The sink -/

inductive Event (ε : Type)
  | result (action : String) (payload : Json)
  | other (event : ε)

def Event.isResult : Event ε → Bool
  | .result _ _ => true
  | .other _ => false

inductive DispatchMessage (ε : Type)
  | event (event : Event ε)
  | error (error : FirestoneError)

def DispatchMessage.isResult : DispatchMessage ε → Bool
  | .event e => e.isResult
  | .error _ => false

def eventBufferCapacity : Nat := 16

def dispatchContractError (message : String) : FirestoneError :=
  (FirestoneError.new .generic message).withHint "retry the request; if it fails again, report a Firestone bug"

/-- The state of `ChannelEventSink` besides the channel. -/
structure Sink (ε : Type) where
  result : Option (Event ε) := none
  contractViolation : Bool := false
  disconnected : Bool := false

/-- What `emit` records of an event. -/
def Sink.note (expected : String) (sink : Sink ε) : Event ε → Sink ε
  | .result action payload =>
    if sink.result.isSome ∨ action ≠ expected then { sink with contractViolation := true }
    else { sink with result := some (.result action payload) }
  | .other _ => if sink.result.isSome then { sink with contractViolation := true } else sink

/-- What `finish` sends. -/
def Sink.terminal (sink : Sink ε) : Res Unit → DispatchMessage ε
  | .error error => .error error
  | .ok () =>
    if sink.contractViolation then
      .error (dispatchContractError "the dispatcher emitted an invalid terminal event sequence")
    else
      match sink.result with
      | some result => .event result
      | none => .error (dispatchContractError "the dispatcher completed without a Result event")

/-- How the run of an action ends. -/
inductive Outcome
  | returned (result : Res Unit)
  | panicked

/-- What `spawn_dispatch` finishes with. -/
def Outcome.result : Outcome → Res Unit
  | .returned result => result
  | .panicked => .error (dispatchContractError "the dispatcher panicked while handling the request")

/-! ## The worker and the receiver -/

/-- Where the worker is, with the events that the action is still to emit. -/
inductive Worker (ε : Type)
  | acting (events : List (Event ε))
  /-- In `send`, called by `emit`. -/
  | sending (message : DispatchMessage ε) (events : List (Event ε))
  /-- In `send`, called by `finish`. -/
  | finishing (message : DispatchMessage ε)
  /-- It has ended and the sender is dropped. -/
  | dropped

structure Sys (ε : Type) where
  sink : Sink ε
  worker : Worker ε
  queue : List (DispatchMessage ε)
  /-- The receiver is not dropped. -/
  connected : Bool
  received : List (DispatchMessage ε)
  /-- The receiver has found the channel drained and the sender dropped. -/
  ended : Bool

def start (events : List (Event ε)) : Sys ε := ⟨{}, .acting events, [], true, [], false⟩

namespace Sys

variable (s : Sys ε)

/-- `disconnected || sender.is_closed()`. -/
def closed : Bool := s.sink.disconnected || !s.connected

/-- A call that finds the receiver gone. -/
def giveUp (worker : Worker ε) : Sys ε := { s with sink := { s.sink with disconnected := true }, worker := worker }

/-- One iteration of the loop of `send`; with the channel full it sleeps. -/
def send (message : DispatchMessage ε) (worker : Worker ε) : Option (Sys ε) :=
  if s.closed then some (s.giveUp worker)
  else if s.queue.length < eventBufferCapacity then some { s with queue := s.queue ++ [message], worker := worker }
  else none

end Sys

/-- `emit`, up to the call of `send`. -/
def emit (expected : String) (s : Sys ε) (event : Event ε) (events : List (Event ε)) : Sys ε :=
  if s.closed then s.giveUp (.acting events)
  else
    let sink := s.sink.note expected event
    match event with
    | .result _ _ => { s with sink := sink, worker := .acting events }
    | .other _ => { s with sink := sink, worker := .sending (.event event) events }

/-- `finish`, up to the call of `send`. -/
def finish (s : Sys ε) (outcome : Outcome) : Sys ε :=
  if s.closed then { s with worker := .dropped }
  else { s with worker := .finishing (s.sink.terminal outcome.result) }

def workerStep (expected : String) (outcome : Outcome) (s : Sys ε) : Option (Sys ε) :=
  match s.worker with
  | .acting (event :: events) => some (emit expected s event events)
  | .acting [] => some (finish s outcome)
  | .sending message events => s.send message (.acting events)
  | .finishing message => s.send message .dropped
  | .dropped => none

/-- `recv`, which waits while the channel is empty and the sender alive. -/
def receiveStep (s : Sys ε) : Option (Sys ε) :=
  if !s.connected || s.ended then none
  else
    match s.queue, s.worker with
    | message :: queue, _ => some { s with queue := queue, received := s.received ++ [message] }
    | [], .dropped => some { s with ended := true }
    | [], _ => none

inductive Act
  | worker | receive
  /-- The client goes away. -/
  | hangUp
  deriving DecidableEq

def step (expected : String) (outcome : Outcome) (s : Sys ε) : Act → Option (Sys ε)
  | .worker => workerStep expected outcome s
  | .receive => receiveStep s
  | .hangUp => if s.connected then some { s with connected := false } else none

/-! ## The responses -/

structure DispatchOutput (ε : Type) where
  events : List (Event ε)
  result : Event ε

/-- `collect_action`, on the messages it receives until the channel ends. -/
def collectAction : List (DispatchMessage ε) → List (Event ε) → Res (DispatchOutput ε)
  | [], _ => .error (dispatchContractError "the dispatcher ended without a terminal event")
  | .event (.result action payload) :: _, events => .ok ⟨events, .result action payload⟩
  | .event (.other event) :: messages, events => collectAction messages (events ++ [.other event])
  | .error error :: _, _ => .error error

def statusForError : ErrorKind → Nat
  | .usage | .invalidSpec => 400
  | .notFound => 404
  | .conflict | .alreadyRunning | .busy => 409
  | .timeout => 504
  | .dependency => 503
  | .checksum => 502
  | .generic | .notRunning | .alreadyExists | .interrupted => 500

inductive Response (ε : Type)
  | json (status : Nat) (body : DispatchOutput ε)
  | jsonError (status : Nat) (error : FirestoneError)
  /-- One line for each message. -/
  | ndjson (status : Nat) (lines : List (DispatchMessage ε))

def actionResponse (aggregate : Bool) (messages : List (DispatchMessage ε)) : Response ε :=
  if aggregate then
    match collectAction messages [] with
    | .ok output => .json 200 output
    | .error error => .jsonError (statusForError error.kind) error
  else
    match messages with
    | .event event :: rest => .ndjson 200 (.event event :: rest)
    | .error error :: _ => .ndjson (statusForError error.kind) [.error error]
    | [] =>
      let error := dispatchContractError "the dispatcher ended without a terminal event"
      .ndjson (statusForError error.kind) [.error error]

/-- The events a response delivers before its last message. -/
def Response.events : Response ε → List (Event ε)
  | .json _ body => body.events
  | .jsonError _ _ => []
  | .ndjson _ lines => lines.dropLast.filterMap fun
    | .event event => some event
    | .error _ => none

/-- The last message of a response. -/
def Response.terminal : Response ε → Option (DispatchMessage ε)
  | .json _ body => some (.event body.result)
  | .jsonError _ error => some (.error error)
  | .ndjson _ lines => lines.getLast?

/-! ## What is sent -/

section messages

variable (expected : String) (outcome : Outcome)

def plain (events : List (Event ε)) : List (Event ε) := events.filter fun event => !event.isResult

/-- The messages of the worker for the events that the action is still to emit. -/
def messagesFrom (sink : Sink ε) (events : List (Event ε)) : List (DispatchMessage ε) :=
  (plain events).map .event ++ [(events.foldl (Sink.note expected) sink).terminal outcome.result]

/-- All messages of a request. -/
def messages (events : List (Event ε)) : List (DispatchMessage ε) := messagesFrom expected outcome {} events

/-- The messages the worker has still to send. -/
def owed (s : Sys ε) : List (DispatchMessage ε) :=
  match s.worker with
  | .acting events => messagesFrom expected outcome s.sink events
  | .sending message events => message :: messagesFrom expected outcome s.sink events
  | .finishing message => [message]
  | .dropped => []

/-- What every step keeps while the client stays connected. -/
structure Inv (events : List (Event ε)) (s : Sys ε) : Prop where
  connected : s.connected = true
  attached : s.sink.disconnected = false
  sent : s.received ++ s.queue ++ owed expected outcome s = messages expected outcome events
  ended : s.ended = true → s.queue = [] ∧ owed expected outcome s = []

end messages

section runs

variable {expected : String} {outcome : Outcome} {events : List (Event ε)} {s s' : Sys ε}

theorem Sink.note_disconnected (sink : Sink ε) (event : Event ε) :
    (sink.note expected event).disconnected = sink.disconnected := by
  cases event with
  | result action payload =>
    rw [Sink.note]
    split
    · rfl
    · rfl
  | other event =>
    rw [Sink.note]
    split
    · rfl
    · rfl

theorem Inv.not_closed (h : Inv expected outcome events s) : s.closed = false := by
  rw [Sys.closed, h.connected, h.attached]
  rfl

theorem inv_start : Inv expected outcome events (start events) := ⟨rfl, rfl, rfl, by nofun⟩

/-- The worker is not through, so the receiver has not seen the end. -/
theorem Inv.not_ended (h : Inv expected outcome events s) (howed : owed expected outcome s ≠ []) : s.ended = false := by
  cases hended : s.ended with
  | false => rfl
  | true => exact absurd (h.ended hended).2 howed

theorem messagesFrom_ne_nil (sink : Sink ε) (events : List (Event ε)) : messagesFrom expected outcome sink events ≠ [] := by
  simp [messagesFrom]

/-- Putting a message in the channel. -/
theorem Inv.of_send {message : DispatchMessage ε} {worker : Worker ε} (h : Inv expected outcome events s)
    (howed : owed expected outcome s = message :: owed expected outcome { s with worker := worker })
    (hs : s.send message worker = some s') : Inv expected outcome events s' := by
  have hended := h.not_ended (by rw [howed]; simp)
  rw [Sys.send, if_neg (by rw [h.not_closed]; simp)] at hs
  split at hs
  · cases hs
    refine ⟨h.connected, h.attached, ?_, fun he => absurd he (by simp [hended])⟩
    rw [← h.sent, howed]
    show s.received ++ (s.queue ++ [message]) ++ owed expected outcome { s with worker := worker } = _
    simp
  · cases hs

theorem Inv.of_worker (h : Inv expected outcome events s) (hs : workerStep expected outcome s = some s') :
    Inv expected outcome events s' := by
  unfold workerStep at hs
  split at hs
  · rename_i event rest hworker
    cases hs
    have howed : owed expected outcome s = messagesFrom expected outcome s.sink (event :: rest) := by
      rw [owed, hworker]
    have hended := h.not_ended (by rw [howed]; exact messagesFrom_ne_nil _ _)
    rw [emit, if_neg (by rw [h.not_closed]; simp)]
    cases event with
    | result action payload =>
      refine ⟨h.connected, (Sink.note_disconnected _ _).trans h.attached, ?_, fun he => absurd he (by simp [hended])⟩
      rw [← h.sent, howed]
      rfl
    | other event =>
      refine ⟨h.connected, (Sink.note_disconnected _ _).trans h.attached, ?_, fun he => absurd he (by simp [hended])⟩
      rw [← h.sent, howed]
      rfl
  · rename_i hworker
    cases hs
    have howed : owed expected outcome s = [s.sink.terminal outcome.result] := by
      rw [owed, hworker]
      rfl
    have hended := h.not_ended (by rw [howed]; simp)
    rw [finish, if_neg (by rw [h.not_closed]; simp)]
    refine ⟨h.connected, h.attached, ?_, fun he => absurd he (by simp [hended])⟩
    rw [← h.sent, howed]
    rfl
  · rename_i message rest hworker
    exact h.of_send (by rw [owed, hworker]; rfl) hs
  · rename_i message hworker
    exact h.of_send (by rw [owed, hworker]; rfl) hs
  · cases hs

theorem Inv.of_receive (h : Inv expected outcome events s) (hs : receiveStep s = some s') :
    Inv expected outcome events s' := by
  unfold receiveStep at hs
  split at hs
  · cases hs
  · rename_i hopen
    split at hs
    · rename_i worker message queue hqueue
      cases hs
      refine ⟨h.connected, h.attached, ?_, fun he => absurd (by rw [show s.ended = true from he]; simp) hopen⟩
      rw [← h.sent, hqueue]
      show s.received ++ [message] ++ queue ++ owed expected outcome s = _
      simp
    · rename_i hqueue hworker
      cases hs
      have howed : owed expected outcome s = [] := by rw [owed, hworker]
      exact ⟨h.connected, h.attached, h.sent, fun _ => ⟨hqueue, howed⟩⟩
    · cases hs

theorem Inv.of_step {a : Act} (h : Inv expected outcome events s) (ha : a ≠ .hangUp)
    (hs : step expected outcome s a = some s') : Inv expected outcome events s' := by
  cases a with
  | worker => exact h.of_worker hs
  | receive => exact h.of_receive hs
  | hangUp => exact absurd rfl ha

theorem Inv.of_run {acts : List Act} (h : Inv expected outcome events s) (hconn : Act.hangUp ∉ acts)
    (hrun : run (step expected outcome) s acts = some s') : Inv expected outcome events s' := by
  refine (@run_induction _ _ _ (fun s acts => Inv expected outcome events s ∧ Act.hangUp ∉ acts) ?_ _ _ _ ⟨h, hconn⟩ hrun).1
  rintro s a acts t ⟨h, hconn⟩ hs
  obtain ⟨ha, hconn⟩ := not_or.mp (List.mem_cons.not.mp hconn)
  exact ⟨h.of_step (Ne.symm ha) hs, hconn⟩

/-! ## Progress -/

/-- A bound for the steps that are left. -/
def remaining (s : Sys ε) : Nat :=
  (match s.worker with
    | .acting events => 3 * events.length + 4
    | .sending _ events => 3 * events.length + 6
    | .finishing _ => 3
    | .dropped => 0) + s.queue.length + if s.ended then 0 else 1

theorem remaining_send {message : DispatchMessage ε} {worker : Worker ε} (hclosed : s.closed = false)
    (hs : s.send message worker = some s') : s' = { s with queue := s.queue ++ [message], worker := worker } := by
  rw [Sys.send, if_neg (by rw [hclosed]; simp)] at hs
  split at hs
  · exact (Option.some.inj hs).symm
  · cases hs

theorem remaining_step {a : Act} (h : Inv expected outcome events s) (ha : a ≠ .hangUp)
    (hs : step expected outcome s a = some s') : remaining s' < remaining s := by
  have hclosed := h.not_closed
  cases a with
  | worker =>
    change workerStep expected outcome s = some s' at hs
    unfold workerStep at hs
    split at hs
    · rename_i event rest hworker
      cases hs
      rw [emit, if_neg (by rw [hclosed]; simp)]
      cases event with
      | result action payload => simp [remaining, hworker]
      | other event =>
        simp only [remaining, hworker, List.length_cons]
        omega
    · rename_i hworker
      cases hs
      rw [finish, if_neg (by rw [hclosed]; simp)]
      simp [remaining, hworker]
    · rename_i message rest hworker
      rw [remaining_send hclosed hs]
      simp [remaining, hworker]
      omega
    · rename_i message hworker
      rw [remaining_send hclosed hs]
      simp [remaining, hworker]
      omega
    · cases hs
  | receive =>
    change receiveStep s = some s' at hs
    unfold receiveStep at hs
    split at hs
    · cases hs
    · rename_i hopen
      have hended : s.ended = false := Bool.eq_false_iff.mpr fun he => hopen (by rw [he]; simp)
      split at hs
      · rename_i worker message queue hqueue
        cases hs
        simp [remaining, hqueue]
      · rename_i hqueue hworker
        cases hs
        simp [remaining, hqueue, hworker, hended]
      · cases hs
  | hangUp => exact absurd rfl ha

theorem length_le_remaining {acts : List Act} (h : Inv expected outcome events s) (hconn : Act.hangUp ∉ acts)
    (hrun : run (step expected outcome) s acts = some s') : acts.length + remaining s' ≤ remaining s := by
  -- the steps that were made and the bound for the others
  refine (@run_induction _ _ _ (fun t rest => Inv expected outcome events t ∧ Act.hangUp ∉ rest ∧
    acts.length + remaining t ≤ remaining s + rest.length) ?_ _ _ _ ⟨h, hconn, (Nat.add_comm _ _).le⟩ hrun).2.2
  rintro t a rest t' ⟨h, hconn, hle⟩ hs
  obtain ⟨ha, hconn⟩ := not_or.mp (List.mem_cons.not.mp hconn)
  have hlt := remaining_step h (Ne.symm ha) hs
  refine ⟨h.of_step (Ne.symm ha) hs, hconn, ?_⟩
  rw [List.length_cons] at hle
  omega

/-- Until the receiver has seen the end, the worker or the receiver can go on. -/
theorem Inv.progress (h : Inv expected outcome events s) (hended : s.ended = false) :
    (step expected outcome s .worker).isSome ∨ (step expected outcome s .receive).isSome := by
  cases hqueue : s.queue with
  | cons message queue =>
    right
    show (receiveStep s).isSome
    simp [receiveStep, h.connected, hended, hqueue]
  | nil =>
    have hsend : ∀ message worker, (s.send message worker).isSome := fun message worker => by
      rw [Sys.send, if_neg (by rw [h.not_closed]; simp), hqueue]
      rfl
    cases hworker : s.worker with
    | acting rest =>
      left
      show (workerStep expected outcome s).isSome
      cases rest with
      | nil => simp [workerStep, hworker]
      | cons event rest => simp [workerStep, hworker]
    | sending message rest =>
      left
      show (workerStep expected outcome s).isSome
      rw [workerStep, hworker]
      exact hsend _ _
    | finishing message =>
      left
      show (workerStep expected outcome s).isSome
      rw [workerStep, hworker]
      exact hsend _ _
    | dropped =>
      right
      show (receiveStep s).isSome
      simp [receiveStep, h.connected, hended, hqueue, hworker]

end runs

/-! ## The last message -/

section terminal

variable {expected : String} {events : List (Event ε)}

/-- One result of the expected name, and nothing after it. -/
def EndsWith (expected : String) (payload : Json) (events : List (Event ε)) : Prop :=
  ∃ before, events = before ++ [.result expected payload] ∧ ∀ event ∈ before, event.isResult = false

theorem foldl_note_plain (h : ∀ event ∈ events, event.isResult = false) :
    events.foldl (Sink.note expected) {} = {} := by
  induction events with
  | nil => rfl
  | cons event events ih =>
    cases event with
    | result action payload => exact absurd (h _ List.mem_cons_self) (by simp [Event.isResult])
    | other event => exact ih fun e he => h e (List.mem_cons_of_mem _ he)

theorem note_result {sink : Sink ε} {action : String} {payload : Json}
    (h : (sink.note expected (.result action payload)).contractViolation = false) :
    sink.contractViolation = false ∧ sink.result = none ∧ action = expected ∧
      (sink.note expected (.result action payload)).result = some (.result action payload) := by
  rw [Sink.note] at h ⊢
  split at h
  · cases h
  · rename_i hc
    rw [if_neg hc]
    push Not at hc
    exact ⟨h, by simpa using hc.1, hc.2, rfl⟩

theorem note_other {sink : Sink ε} {event : ε} (h : (sink.note expected (.other event)).contractViolation = false) :
    sink.contractViolation = false ∧ sink.result = none ∧ sink.note expected (.other event) = sink := by
  rw [Sink.note] at h ⊢
  split at h
  · cases h
  · rename_i hc
    rw [if_neg hc]
    exact ⟨h, by simpa using hc, rfl⟩

/-- Without a violation there was no result, or one as it should be. -/
theorem foldl_note_cases (events : List (Event ε))
    (h : (events.foldl (Sink.note expected) {}).contractViolation = false) :
    ((events.foldl (Sink.note expected) {}).result = none ∧ ∀ event ∈ events, event.isResult = false) ∨
      ∃ payload, (events.foldl (Sink.note expected) {}).result = some (.result expected payload) ∧
        EndsWith expected payload events := by
  induction events using List.reverseRecOn with
  | nil => exact .inl ⟨rfl, by simp⟩
  | append_singleton events event ih =>
    rw [List.foldl_append, List.foldl_cons, List.foldl_nil] at h ⊢
    cases event with
    | result action payload =>
      obtain ⟨hviol, hnone, rfl, hresult⟩ := note_result h
      rcases ih hviol with ⟨-, hplain⟩ | ⟨payload', hsome, -⟩
      · exact .inr ⟨payload, hresult, events, rfl, hplain⟩
      · rw [hnone] at hsome
        cases hsome
    | other event =>
      obtain ⟨hviol, hnone, hsame⟩ := note_other h
      rcases ih hviol with ⟨-, hplain⟩ | ⟨payload', hsome, -⟩
      · refine .inl ⟨by rw [hsame]; exact hnone, fun e he => ?_⟩
        rcases List.mem_append.mp he with he | he
        · exact hplain e he
        · rw [List.mem_singleton.mp he]
          rfl
      · rw [hnone] at hsome
        cases hsome

theorem terminal_of_endsWith {payload : Json} (h : EndsWith expected payload events) :
    (events.foldl (Sink.note expected) {}).terminal (.ok ()) = .event (.result expected payload) := by
  obtain ⟨before, rfl, hplain⟩ := h
  rw [List.foldl_append, foldl_note_plain hplain]
  simp [Sink.note, Sink.terminal]

/-- The last message is an error or the expected result. -/
theorem terminal_event {outcome : Outcome} {event : Event ε}
    (h : (events.foldl (Sink.note expected) {}).terminal outcome.result = .event event) :
    outcome = .returned (.ok ()) ∧ ∃ payload, event = .result expected payload ∧ EndsWith expected payload events := by
  cases houtcome : outcome.result with
  | error error =>
    rw [houtcome] at h
    cases h
  | ok u =>
    have hreturned : outcome = .returned (.ok ()) := by
      cases outcome with
      | returned result => rw [show result = .ok () from houtcome]
      | panicked => cases houtcome
    rw [houtcome, Sink.terminal] at h
    split at h
    · cases h
    · rename_i hviol
      rcases foldl_note_cases events (by simpa using hviol) with ⟨hnone, -⟩ | ⟨payload, hsome, hends⟩
      · rw [hnone] at h
        cases h
      · rw [hsome] at h
        cases h
        exact ⟨hreturned, payload, rfl, hends⟩

/-- The last message is a result exactly when the action ended well with the expected result and nothing after it. -/
theorem terminal_iff (outcome : Outcome) (action : String) (payload : Json) :
    (events.foldl (Sink.note expected) {}).terminal outcome.result = .event (.result action payload) ↔
      outcome = .returned (.ok ()) ∧ action = expected ∧ EndsWith expected payload events := by
  constructor
  · intro h
    obtain ⟨hreturned, _, heq, hends⟩ := terminal_event h
    cases heq
    exact ⟨hreturned, rfl, hends⟩
  · rintro ⟨rfl, rfl, h⟩
    exact terminal_of_endsWith h

theorem terminal_isResult (outcome : Outcome) (event : Event ε)
    (h : (events.foldl (Sink.note expected) {}).terminal outcome.result = .event event) : event.isResult = true := by
  obtain ⟨-, payload, rfl, -⟩ := terminal_event h
  rfl

end terminal

/-! ## Both responses -/

theorem collectAction_plain (plain : List (Event ε)) (h : ∀ event ∈ plain, event.isResult = false)
    (rest : List (DispatchMessage ε)) (events : List (Event ε)) :
    collectAction (plain.map .event ++ rest) events = collectAction rest (events ++ plain) := by
  induction plain generalizing events with
  | nil => simp
  | cons event plain ih =>
    cases event with
    | result action payload => exact absurd (h _ List.mem_cons_self) (by simp [Event.isResult])
    | other event =>
      rw [List.map_cons, List.cons_append, collectAction, ih fun e he => h e (List.mem_cons_of_mem _ he),
        List.append_assoc]
      rfl

theorem plain_isResult {events : List (Event ε)} : ∀ event ∈ plain events, event.isResult = false := by
  intro event h
  simpa using (List.mem_filter.mp h).2

theorem streamed_eq (plain : List (Event ε)) (terminal : DispatchMessage ε) :
    (actionResponse false (plain.map .event ++ [terminal])).events = plain ∧
      (actionResponse false (plain.map .event ++ [terminal])).terminal = some terminal := by
  have hlines : ∃ status, actionResponse false (plain.map .event ++ [terminal]) =
      .ndjson status (plain.map .event ++ [terminal]) := by
    cases plain with
    | nil =>
      cases terminal with
      | event event => exact ⟨_, rfl⟩
      | error error => exact ⟨_, rfl⟩
    | cons event plain => exact ⟨_, rfl⟩
  obtain ⟨status, hlines⟩ := hlines
  rw [hlines]
  refine ⟨?_, by simp [Response.terminal]⟩
  simp only [Response.events, List.dropLast_concat, List.filterMap_map]
  exact List.filterMap_some

/-- A request whose messages are these: both responses end with the same message. The aggregate response holds the same
events if that is a result, and the error alone otherwise. -/
theorem aggregate_eq {plain : List (Event ε)} (h : ∀ event ∈ plain, event.isResult = false)
    (terminal : DispatchMessage ε) (hterminal : ∀ event, terminal = .event event → event.isResult = true) :
    (actionResponse true (plain.map .event ++ [terminal])).terminal = some terminal ∧
      (actionResponse true (plain.map .event ++ [terminal])).events = if terminal.isResult then plain else [] := by
  have hcollect := collectAction_plain plain h [terminal] []
  rw [List.nil_append] at hcollect
  simp only [actionResponse, hcollect, if_true]
  cases terminal with
  | event event =>
    cases event with
    | result action payload => exact ⟨rfl, rfl⟩
    | other event => exact absurd (hterminal _ rfl) (by simp [Event.isResult])
  | error error => exact ⟨rfl, rfl⟩

/-! ## The request -/

theorem messages_eq (expected : String) (outcome : Outcome) (events : List (Event ε)) :
    messages expected outcome events =
      (plain events).map .event ++ [(events.foldl (Sink.note expected) {}).terminal outcome.result] := rfl

/-- Whatever the action emits and however it ends, at every pace of a client that stays connected: it has received an
initial part of the messages of the request, the run has a bound and can go on until the client has seen the end, and
then it has received them all. These are the events that are no results, in order, and one last message, a result
exactly if the action ended well with the one expected result and nothing after it. The aggregate response ends with the
same message as the streamed one; it holds the same events if that is a result and the error alone otherwise. -/
theorem dispatch_exact (expected : String) (outcome : Outcome) (events : List (Event ε)) (acts : List Act) (s : Sys ε)
    (hconn : Act.hangUp ∉ acts) (hrun : run (step expected outcome) (start events) acts = some s) :
    (∃ terminal : DispatchMessage ε,
      s.received <+: (plain events).map .event ++ [terminal] ∧
      (s.ended = true → s.received = (plain events).map .event ++ [terminal]) ∧
      (∀ action payload, terminal = .event (.result action payload) ↔
        outcome = .returned (.ok ()) ∧ action = expected ∧ EndsWith expected payload events) ∧
      (∀ event, terminal = .event event → event.isResult = true) ∧
      (actionResponse false ((plain events).map .event ++ [terminal])).events = plain events ∧
      (actionResponse false ((plain events).map .event ++ [terminal])).terminal = some terminal ∧
      (actionResponse true ((plain events).map .event ++ [terminal])).terminal = some terminal ∧
      (actionResponse true ((plain events).map .event ++ [terminal])).events =
        if terminal.isResult then plain events else []) ∧
    (s.ended = false → (step expected outcome s .worker).isSome ∨ (step expected outcome s .receive).isSome) ∧
    acts.length ≤ 3 * events.length + 5 := by
  have hinv := inv_start.of_run hconn hrun
  have hsent := hinv.sent
  rw [messages_eq] at hsent
  refine ⟨⟨_, ⟨s.queue ++ owed expected outcome s, by rw [← List.append_assoc]; exact hsent⟩, fun hended => ?_,
    fun action payload => terminal_iff outcome action payload, terminal_isResult outcome, (streamed_eq _ _).1,
    (streamed_eq _ _).2, (aggregate_eq plain_isResult _ (terminal_isResult outcome)).1,
    (aggregate_eq plain_isResult _ (terminal_isResult outcome)).2⟩, hinv.progress, ?_⟩
  · obtain ⟨hqueue, howed⟩ := hinv.ended hended
    rw [hqueue, howed, List.append_nil, List.append_nil] at hsent
    exact hsent
  · have hle := length_le_remaining inv_start hconn hrun
    have hstart : remaining (start events) = 3 * events.length + 5 := rfl
    omega

/-- A step and its result, received as fast as it is sent. -/
theorem dispatch_exact_start : ∃ s : Sys Nat,
    run (step "start" (.returned (.ok ()))) (start [.other 1, .result "start" .null])
      [.worker, .worker, .receive, .worker, .worker, .worker, .receive, .receive] = some s ∧
    s.received = [.event (.other 1), .event (.result "start" .null)] := by
  refine ⟨_, rfl, ?_⟩
  obtain ⟨⟨terminal, -, hended, hterminal, -⟩, -⟩ := dispatch_exact "start" (.returned (.ok ()))
    [.other 1, .result "start" .null] [.worker, .worker, .receive, .worker, .worker, .worker, .receive, .receive] _
    (by decide) rfl
  rw [hended rfl, (hterminal "start" .null).mpr ⟨rfl, rfl, [.other 1], rfl, by simp [Event.isResult]⟩]
  rfl

/-- The messages of a stop that emits one event and fails. -/
def failedStop : List (DispatchMessage Nat) :=
  messages "stop" (.returned (.error (.new .timeout "the machine did not stop"))) [.other 1]

/-- After an error the streamed response has delivered the events before it, the aggregate response has not. -/
theorem aggregate_drops_events :
    (actionResponse false failedStop).events = [.other 1] ∧ (actionResponse true failedStop).events = [] :=
  ⟨rfl, rfl⟩

end Firestone.Rest
