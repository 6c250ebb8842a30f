import Firestone.Console.Broker

/-!
# The console client

`firestone console` relays between the terminal and the socket of the broker until Ctrl-] is typed. `relay_console` is one
poll loop; as in the broker's, each operation is a step of its own, and what an operation of the system returns comes with
the action. What is typed is buffered and written as far as the socket takes it.

* `writeStep`, `inputStep`, `flushStep`, `outputStep`, `hangUpStep` — the operations of the loop.
* `Inv`, `inv_of_reachable` — what was sent, with what is buffered, is what was read before the detach byte.
* `detach_sends` — so a part of what was typed before that byte is sent, in order; all of it when the relay detaches, unless
  the socket refuses a write of the last flush.
-/

namespace Firestone.Console.Relay

open Firestone.Lib

/-! ## The relay -/

inductive ConsoleResult
  | detached | disconnected
  deriving DecidableEq, Repr

/-- Ctrl-]. -/
def detachByte : UInt8 := 0x1d

/-- The operation that is next. In `flush` the last typed bytes are written, before the relay detaches or goes on. -/
inductive Phase
  | top
  | write
  | input
  | flush (detach : Bool)
  | output
  | hangUp
  | returned (result : Res ConsoleResult)
  deriving DecidableEq

/-- The relay goes on, and no detach byte was read. -/
def Phase.relaying : Phase → Bool
  | .flush true | .returned _ => false
  | _ => true

structure St where
  /-- What has been typed, whether more can be, and how much of it the relay has read. -/
  typed : Bytes := []
  ended : Bool := false
  taken : Nat := 0
  /-- What the relay has written to the socket. -/
  sent : Bytes := []
  /-- What the relay has written to the terminal. -/
  shown : Bytes := []
  -- the variables of the loop
  phase : Phase := .top
  inputEvents : Events := {}
  socketEvents : Events := {}
  pending : Pending UInt8 := {}
  deriving DecidableEq

def St.goto (s : St) (phase : Phase) : St := { s with phase }

def St.return (s : St) (result : Res ConsoleResult) : St := s.goto (.returned result)

/-- The end of `flush_pending`: a buffer that is written whole is cleared, unless the relay detaches. -/
def St.endFlush (s : St) (detach : Bool) : St :=
  if detach then s.return (.ok .detached)
  else { s with pending := if s.pending.offset = s.pending.data.length then {} else s.pending, phase := .output }

section relay

variable (name : String)

def St.fail (s : St) (operation : String) : St := s.return (.error (consoleIoError name operation))

def interrupted : FirestoneError := .new .interrupted ("console attachment for machine `" ++ name ++ "` was interrupted")

def pollInterrupted : FirestoneError := .new .interrupted ("console attachment for machine " ++ name ++ " was interrupted")

def writeStep (s : St) : IoResult → Option St
  | .ok n =>
    if n = 0 then some (s.return (.ok .disconnected))
    else if n ≤ s.pending.rest.length then
      some { s with sent := s.sent ++ s.pending.rest.take n, pending := s.pending.advance n, phase := .input }
    else none
  | .wouldBlock => some (s.goto .input)
  | .closed => some (s.return (.ok .disconnected))
  | _ => some (s.fail name "write console input")

/-- A read of the terminal. No bytes mean that all has been read and no more will be typed. -/
def inputStep (s : St) : IoResult → Option St
  | .ok n =>
    if n = 0 then
      if s.ended = true ∧ s.taken = s.typed.length then some (s.return (.ok .detached)) else none
    else if n ≤ consoleBufferBytes ∧ s.taken + n ≤ s.typed.length then
      let read := (s.typed.drop s.taken).take n
      match read.idxOf? detachByte with
      | some escape =>
        if escape > 0 then
          some { s with taken := s.taken + n, pending := s.pending.push (read.take escape), phase := .flush true }
        else some ({ s with taken := s.taken + n }.return (.ok .detached))
      | none => some { s with taken := s.taken + n, pending := s.pending.push read, phase := .flush false }
    else none
  | _ => some (s.fail name "read terminal input")

/-- One write of `flush_pending`. The buffer is not cleared before the end. -/
def flushStep (s : St) (detach : Bool) : IoResult → Option St
  | .ok n =>
    if n = 0 then some (s.endFlush detach)
    else if n ≤ s.pending.rest.length then
      some { s with
        sent := s.sent ++ s.pending.rest.take n, pending := { s.pending with offset := s.pending.offset + n } }
    else none
  | .wouldBlock => some (s.endFlush detach)
  | .closed => some (s.endFlush detach)
  | _ => some (s.fail name "write console input")

/-- A read of the socket, and what the terminal takes of it. -/
def outputStep (s : St) (read : Bytes) (shown : Option Nat) : IoResult → Option St
  | .ok n =>
    if n = 0 then some (s.return (.ok .disconnected))
    else if read.length = n ∧ n ≤ consoleBufferBytes then
      match shown with
      | some k => some (St.fail name { s with shown := s.shown ++ read.take k } "write console output")
      | none => some { s with shown := s.shown ++ read, phase := .hangUp }
    else none
  | .wouldBlock => some (s.goto .hangUp)
  | .closed => some (s.return (.ok .disconnected))
  | _ => some (s.fail name "read console output")

def hangUpStep (s : St) : St := if s.socketEvents.hangUp then s.return (.ok .disconnected) else s.goto .top

inductive Act
  /-- The user types. -/
  | types (input : Bytes)
  /-- The input of the terminal ends. -/
  | ends
  | cancelled
  | poll (input socket : Events)
  | pollFails (cancelled : Bool)
  /-- An operation, with what a read of the socket returns and how much of it is shown when that fails. -/
  | io (result : IoResult) (read : Bytes) (shown : Option Nat)
  /-- The condition of the operation does not hold. -/
  | skip
  | checkHangUp

/-- The condition of the operation. -/
def due (s : St) : Bool :=
  match s.phase with
  | .write => s.socketEvents.writable && s.pending.offset < s.pending.data.length
  | .input => s.inputEvents.readable && s.pending.offset = s.pending.data.length
  | .flush _ => s.pending.offset < s.pending.data.length
  | .output => s.socketEvents.readable
  | _ => false

def ioStep (s : St) (result : IoResult) (read : Bytes) (shown : Option Nat) : Option St :=
  match s.phase with
  | .write => writeStep name s result
  | .input => inputStep name s result
  | .flush detach => flushStep name s detach result
  | .output => outputStep name s read shown result
  | _ => none

def skipStep (s : St) : Option St :=
  match s.phase with
  | .write => some (s.goto .input)
  | .input => some (s.goto .output)
  | .flush detach => some (s.endFlush detach)
  | .output => some (s.goto .hangUp)
  | _ => none

def step (s : St) : Act → Option St
  | .types input => if s.ended then none else some { s with typed := s.typed ++ input }
  | .ends => some { s with ended := true }
  | .cancelled => if s.phase = .top then some (s.return (.error (interrupted name))) else none
  | .poll input socket =>
    if s.phase = .top then some { s with inputEvents := input, socketEvents := socket, phase := .write } else none
  | .pollFails cancelled =>
    if s.phase = .top then
      some (if cancelled then s.return (.error (pollInterrupted name))
        else s.fail name "poll the terminal and console socket")
    else none
  | .io result read shown => if due s = true then ioStep name s result read shown else none
  | .skip => if due s = true then none else skipStep s
  | .checkHangUp => if s.phase = .hangUp then some (hangUpStep s) else none

end relay

def Initial (s : St) : Prop := s = {}

/-! ## What is sent -/

/-- What the relay has read of the terminal. -/
def St.input (s : St) : Bytes := s.typed.take s.taken

/-- What was sent, with what is buffered, is what was read before the detach byte. Nothing is read behind that byte. -/
structure Inv (s : St) : Prop where
  taken_le : s.taken ≤ s.typed.length
  sent : s.sent ++ s.pending.rest = beforeFirst detachByte s.input
  relaying : s.phase.relaying = true → detachByte ∉ s.input
  detaching : s.phase = .flush true → detachByte ∈ s.input
  detached : s.phase = .returned (.ok .detached) → detachByte ∈ s.input ∨ s.ended = true ∧ s.taken = s.typed.length

variable {name : String} {s s' : St}

theorem Inv.initial (h : Initial s) : Inv s := by
  subst h
  exact ⟨Nat.le_refl 0, rfl, nofun, nofun, nofun⟩

/-- A step that changes no stream, in a relay that goes on or stops without detaching. -/
theorem Inv.goto (h : Inv s) (hs : s.phase.relaying = true) {phase : Phase} (hflush : phase ≠ .flush true)
    (hdetached : phase ≠ .returned (.ok .detached)) : Inv (s.goto phase) :=
  ⟨h.taken_le, h.sent, fun _ => h.relaying hs, fun hp => absurd hp hflush, fun hp => absurd hp hdetached⟩

/-- So does the relay that stops. -/
theorem Inv.stop (h : Inv s) {result : Res ConsoleResult} (hresult : result ≠ .ok .detached) : Inv (s.return result) :=
  ⟨h.taken_le, h.sent, nofun, nofun, fun hp => absurd (Phase.returned.inj hp) hresult⟩

theorem Inv.endFlush (h : Inv s) {detach : Bool} (hs : s.phase = .flush detach) : Inv (s.endFlush detach) := by
  cases detach with
  | true => exact ⟨h.taken_le, h.sent, (by rintro ⟨⟩), (by rintro ⟨⟩), fun _ => .inl (h.detaching hs)⟩
  | false =>
    have hrest : (if s.pending.offset = s.pending.data.length then {} else s.pending : Pending UInt8).rest = s.pending.rest := by
      split
      · rename_i hall
        rw [Pending.rest_empty, Pending.rest, hall, List.drop_length]
      · rfl
    refine ⟨h.taken_le, ?_, fun _ => h.relaying (by rw [hs]; rfl), (by rintro ⟨⟩), (by rintro ⟨⟩)⟩
    rw [St.endFlush, if_neg Bool.false_ne_true, hrest]
    exact h.sent

theorem writeStep_inv (h : Inv s) (hphase : s.phase = .write) {result : IoResult} (hs : writeStep name s result = some s') :
    Inv s' := by
  have hrelaying : s.phase.relaying = true := by rw [hphase]; rfl
  cases result with
  | ok n =>
    simp only [writeStep] at hs
    split at hs
    · cases hs
      exact h.stop nofun
    · split at hs
      · cases hs
        refine ⟨h.taken_le, ?_, fun _ => h.relaying hrelaying, nofun, nofun⟩
        rw [Pending.rest_advance, List.append_assoc, List.take_append_drop]
        exact h.sent
      · cases hs
  | wouldBlock =>
    cases hs
    exact h.goto hrelaying nofun nofun
  | closed | eio | failed =>
    cases hs
    exact h.stop nofun

theorem flushStep_inv (h : Inv s) {detach : Bool} (hphase : s.phase = .flush detach) {result : IoResult}
    (hs : flushStep name s detach result = some s') : Inv s' := by
  cases result with
  | ok n =>
    simp only [flushStep] at hs
    split at hs
    · cases hs
      exact h.endFlush hphase
    · split at hs
      · cases hs
        refine ⟨h.taken_le, ?_, h.relaying, h.detaching, h.detached⟩
        rw [Pending.rest_moved, List.append_assoc, List.take_append_drop]
        exact h.sent
      · cases hs
  | wouldBlock | closed =>
    cases hs
    exact h.endFlush hphase
  | eio | failed =>
    cases hs
    exact h.stop nofun

theorem inputStep_inv (h : Inv s) (hphase : s.phase = .input) (hdrained : s.pending.offset = s.pending.data.length)
    {result : IoResult} (hs : inputStep name s result = some s') : Inv s' := by
  have hclean : detachByte ∉ s.input := h.relaying (by rw [hphase]; rfl)
  have hrest : s.pending.rest = [] := by rw [Pending.rest, hdrained, List.drop_length]
  have hpush : ∀ l : Bytes, (s.pending.push l).rest = l := by
    intro l
    rw [Pending.push, Pending.rest, hdrained]
    exact List.drop_left
  -- all that was read so far has been sent
  have hsent : s.sent = s.input := by
    have hsent := h.sent
    rwa [hrest, List.append_nil, beforeFirst_of_notMem hclean] at hsent
  cases result with
  | ok n =>
    simp only [inputStep] at hs
    split at hs
    · split at hs
      · rename_i hend
        cases hs
        exact ⟨h.taken_le, h.sent, (by rintro ⟨⟩), (by rintro ⟨⟩), fun _ => .inr hend⟩
      · cases hs
    · split at hs
      · rename_i hn
        have hinput : s.typed.take (s.taken + n) = s.input ++ (s.typed.drop s.taken).take n := List.take_add
        split at hs
        · rename_i escape hescape
          obtain ⟨hbefore, hmem⟩ := take_idxOf? hescape
          have hread : detachByte ∈ s.typed.take (s.taken + n) := by
            rw [hinput]
            exact List.mem_append_right _ hmem
          have hnew : s.sent ++ ((s.typed.drop s.taken).take n).take escape =
              beforeFirst detachByte (s.typed.take (s.taken + n)) := by
            rw [hbefore, hinput, beforeFirst_append_of_notMem hclean, hsent]
          split at hs
          · cases hs
            refine ⟨hn.2, ?_, (by rintro ⟨⟩), fun _ => hread, (by rintro ⟨⟩)⟩
            rw [hpush]
            exact hnew
          · rename_i hzero
            cases hs
            refine ⟨hn.2, ?_, (by rintro ⟨⟩), (by rintro ⟨⟩), fun _ => .inl hread⟩
            have hescape : escape = 0 := by omega
            rw [hescape, List.take_zero, ← hrest] at hnew
            exact hnew
        · rename_i hnone
          cases hs
          have hread : detachByte ∉ s.typed.take (s.taken + n) := by
            rw [hinput, List.mem_append, not_or]
            exact ⟨hclean, List.idxOf?_eq_none_iff.mp hnone⟩
          refine ⟨hn.2, ?_, fun _ => hread, (by rintro ⟨⟩), (by rintro ⟨⟩)⟩
          rw [hpush, St.input, beforeFirst_of_notMem hread, hinput, hsent]
      · cases hs
  | wouldBlock | closed | eio | failed =>
    cases hs
    exact h.stop (by rintro ⟨⟩)

theorem outputStep_inv (h : Inv s) (hphase : s.phase = .output) {result : IoResult} {read : Bytes} {shown : Option Nat}
    (hs : outputStep name s read shown result = some s') : Inv s' := by
  have hrelaying : s.phase.relaying = true := by rw [hphase]; rfl
  cases result with
  | ok n =>
    simp only [outputStep] at hs
    split at hs
    · cases hs
      exact h.stop nofun
    · split at hs
      · split at hs
        · cases hs
          exact ⟨h.taken_le, h.sent, nofun, nofun, nofun⟩
        · cases hs
          exact ⟨h.taken_le, h.sent, fun _ => h.relaying hrelaying, nofun, nofun⟩
      · cases hs
  | wouldBlock =>
    cases hs
    exact h.goto hrelaying nofun nofun
  | closed | eio | failed =>
    cases hs
    exact h.stop nofun

theorem ioStep_inv (h : Inv s) (hdue : due s = true) {result : IoResult} {read : Bytes} {shown : Option Nat}
    (hs : ioStep name s result read shown = some s') : Inv s' := by
  unfold ioStep at hs
  split at hs
  · exact writeStep_inv h ‹_› hs
  · rename_i hphase
    have hdrained : s.pending.offset = s.pending.data.length := by
      rw [due, hphase, Bool.and_eq_true, decide_eq_true_eq] at hdue
      exact hdue.2
    exact inputStep_inv h hphase hdrained hs
  · exact flushStep_inv h ‹_› hs
  · exact outputStep_inv h ‹_› hs
  · cases hs

theorem skipStep_inv (h : Inv s) (hs : skipStep s = some s') : Inv s' := by
  unfold skipStep at hs
  split at hs
  · rename_i hphase
    cases hs
    exact h.goto (by rw [hphase]; rfl) nofun nofun
  · rename_i hphase
    cases hs
    exact h.goto (by rw [hphase]; rfl) nofun nofun
  · rename_i hphase
    cases hs
    exact h.endFlush hphase
  · rename_i hphase
    cases hs
    exact h.goto (by rw [hphase]; rfl) nofun nofun
  · cases hs

/-- The user types while the terminal's input has not ended. -/
theorem Inv.types (h : Inv s) (hended : ¬ s.ended = true) (input : Bytes) : Inv { s with typed := s.typed ++ input } := by
  have hinput : (s.typed ++ input).take s.taken = s.input := List.take_append_of_le_length h.taken_le
  refine ⟨?_, ?_, ?_, ?_, ?_⟩
  · rw [List.length_append]
    exact Nat.le_add_right_of_le h.taken_le
  · rw [St.input, hinput]
    exact h.sent
  · rw [St.input, hinput]
    exact h.relaying
  · rw [St.input, hinput]
    exact h.detaching
  · rw [St.input, hinput]
    intro hp
    exact .inl ((h.detached hp).resolve_right fun hend => hended hend.1)

theorem Inv.ends (h : Inv s) : Inv { s with ended := true } :=
  ⟨h.taken_le, h.sent, h.relaying, h.detaching, fun hp => (h.detached hp).imp_right fun hend => ⟨rfl, hend.2⟩⟩

theorem step_inv {a : Act} (h : Inv s) (hs : step name s a = some s') : Inv s' := by
  cases a with
  | types input =>
    simp only [step] at hs
    split at hs
    · cases hs
    · rename_i hended
      cases hs
      exact h.types hended input
  | ends =>
    cases hs
    exact h.ends
  | cancelled =>
    simp only [step] at hs
    split at hs
    · cases hs
      exact h.stop nofun
    · cases hs
  | poll input socket =>
    simp only [step] at hs
    split at hs
    · rename_i hphase
      cases hs
      exact ⟨h.taken_le, h.sent, fun _ => h.relaying (by rw [hphase]; rfl), nofun, nofun⟩
    · cases hs
  | pollFails cancelled =>
    simp only [step] at hs
    split at hs
    · cases hs
      cases cancelled <;> exact h.stop nofun
    · cases hs
  | io result read shown =>
    simp only [step] at hs
    split at hs
    · exact ioStep_inv h ‹_› hs
    · cases hs
  | skip =>
    simp only [step] at hs
    split at hs
    · cases hs
    · exact skipStep_inv h hs
  | checkHangUp =>
    simp only [step] at hs
    split at hs
    · rename_i hphase
      cases hs
      unfold hangUpStep
      split
      · exact h.stop nofun
      · exact h.goto (by rw [hphase]; rfl) nofun nofun
    · cases hs

theorem inv_of_reachable {ok : St → Act → Prop} (h : Reachable (step name) ok Initial s) : Inv s :=
  h.invariant (fun _ => Inv.initial) fun _ _ _ hi _ hs => step_inv hi hs

/-- A part of what was typed before the detach byte has been sent. -/
theorem Inv.sent_le (h : Inv s) : s.sent <+: beforeFirst detachByte s.typed := by
  have hread : s.sent <+: beforeFirst detachByte s.input := by
    rw [← h.sent]
    exact List.prefix_append _ _
  exact hread.trans (beforeFirst_mono (List.take_prefix _ _))

/-- When the relay has detached, what is left in the buffer is what was not sent. -/
theorem Inv.detached_sent (h : Inv s) (hp : s.phase = .returned (.ok .detached)) :
    s.sent ++ s.pending.rest = beforeFirst detachByte s.typed := by
  have htyped : s.typed = s.input ++ s.typed.drop s.taken := (List.take_append_drop _ _).symm
  rcases h.detached hp with hmem | ⟨-, hall⟩
  · rw [htyped, beforeFirst_append_of_mem hmem]
    exact h.sent
  · rw [h.sent, St.input, hall, List.take_length]

/-! ## The last flush -/

/-- The socket refuses a write of the last flush. -/
def refusesLastFlush (s : St) : Act → Bool
  | .io (.ok n) _ _ => s.phase = .flush true && n = 0
  | .io .wouldBlock _ _ => s.phase = .flush true
  | .io .closed _ _ => s.phase = .flush true
  | _ => false

/-- Nothing is left in the buffer of a relay that has detached. -/
def Flushed (s : St) : Prop := s.phase = .returned (.ok .detached) → s.pending.rest = []

theorem Flushed.of_stop {result : Res ConsoleResult} (hresult : result ≠ .ok .detached) : Flushed (s.return result) :=
  fun hp => absurd (Phase.returned.inj hp) hresult

theorem writeStep_flushed {result : IoResult} (hs : writeStep name s result = some s') : Flushed s' := by
  cases result with
  | ok n =>
    simp only [writeStep] at hs
    split at hs
    · cases hs
      exact .of_stop nofun
    · split at hs
      · cases hs
        exact nofun
      · cases hs
  | wouldBlock =>
    cases hs
    exact nofun
  | closed | eio | failed =>
    cases hs
    exact .of_stop nofun

theorem outputStep_flushed {result : IoResult} {read : Bytes} {shown : Option Nat}
    (hs : outputStep name s read shown result = some s') : Flushed s' := by
  cases result with
  | ok n =>
    simp only [outputStep] at hs
    split at hs
    · cases hs
      exact .of_stop nofun
    · split at hs
      · split at hs
        · cases hs
          exact .of_stop nofun
        · cases hs
          exact nofun
      · cases hs
  | wouldBlock =>
    cases hs
    exact nofun
  | closed | eio | failed =>
    cases hs
    exact .of_stop nofun

theorem inputStep_flushed (hdrained : s.pending.offset = s.pending.data.length) {result : IoResult}
    (hs : inputStep name s result = some s') : Flushed s' := by
  have hrest : s.pending.rest = [] := by rw [Pending.rest, hdrained, List.drop_length]
  cases result with
  | ok n =>
    simp only [inputStep] at hs
    split at hs
    · split at hs
      · cases hs
        exact fun _ => hrest
      · cases hs
    · split at hs
      · split at hs
        · split at hs
          · cases hs
            rintro ⟨⟩
          · cases hs
            exact fun _ => hrest
        · cases hs
          rintro ⟨⟩
      · cases hs
  | wouldBlock | closed | eio | failed =>
    cases hs
    exact .of_stop (by rintro ⟨⟩)

/-- A flush that ends before the buffer is empty was refused a write. -/
theorem flushStep_flushed {detach : Bool} (hphase : s.phase = .flush detach) {result : IoResult} {read : Bytes}
    {shown : Option Nat} (hok : refusesLastFlush s (.io result read shown) = false)
    (hs : flushStep name s detach result = some s') : Flushed s' := by
  have hend : detach = false → Flushed (s.endFlush detach) := by
    rintro rfl
    exact nofun
  have hdetach : ∀ {refused : Bool}, (decide (s.phase = .flush true) && refused) = false → refused = true → detach = false := by
    intro refused hr ht
    rw [ht, Bool.and_true, decide_eq_false_iff_not, hphase, Phase.flush.injEq, Bool.not_eq_true] at hr
    exact hr
  cases result with
  | ok n =>
    simp only [flushStep] at hs
    split at hs
    · rename_i hzero
      cases hs
      exact hend (hdetach hok (decide_eq_true hzero))
    · split at hs
      · cases hs
        intro hp
        exact absurd (hphase.symm.trans hp) nofun
      · cases hs
  | wouldBlock | closed =>
    cases hs
    exact hend (hdetach (by rw [Bool.and_true]; exact hok) rfl)
  | eio | failed =>
    cases hs
    exact .of_stop nofun

theorem step_flushed {a : Act} (hf : Flushed s) (hok : refusesLastFlush s a = false)
    (hs : step name s a = some s') : Flushed s' := by
  cases a with
  | types input =>
    simp only [step] at hs
    split at hs
    · cases hs
    · cases hs
      exact hf
  | ends =>
    cases hs
    exact hf
  | cancelled =>
    simp only [step] at hs
    split at hs
    · cases hs
      exact .of_stop nofun
    · cases hs
  | poll input socket =>
    simp only [step] at hs
    split at hs
    · cases hs
      exact nofun
    · cases hs
  | pollFails cancelled =>
    simp only [step] at hs
    split at hs
    · cases hs
      cases cancelled <;> exact .of_stop nofun
    · cases hs
  | io result read shown =>
    simp only [step] at hs
    split at hs
    · rename_i hdue
      unfold ioStep at hs
      split at hs
      · exact writeStep_flushed hs
      · rename_i hphase
        rw [due, hphase, Bool.and_eq_true, decide_eq_true_eq] at hdue
        exact inputStep_flushed hdue.2 hs
      · exact flushStep_flushed ‹_› hok hs
      · exact outputStep_flushed hs
      · cases hs
    · cases hs
  | skip =>
    simp only [step] at hs
    split at hs
    · cases hs
    · rename_i hdue
      unfold skipStep at hs
      split at hs
      · cases hs
        exact nofun
      · cases hs
        exact nofun
      · rename_i detach hphase
        cases hs
        cases detach with
        | false => exact nofun
        | true =>
          rw [due, hphase, decide_eq_true_eq, Nat.not_lt] at hdue
          exact fun _ => List.drop_eq_nil_of_le hdue
      · cases hs
        exact nofun
      · cases hs
  | checkHangUp =>
    simp only [step] at hs
    split at hs
    · cases hs
      unfold hangUpStep
      split
      · exact .of_stop nofun
      · exact nofun
    · cases hs

/-- The relay detaches with bytes that it has not sent. -/
theorem step_refused {a : Act} (h : Inv s) (hrefused : refusesLastFlush s a = true) (hs : step name s a = some s') :
    s'.phase = .returned (.ok .detached) ∧ s'.sent ≠ beforeFirst detachByte s'.typed := by
  have hinv := step_inv h hs
  have hend : due s = true ∧ s.phase = .flush true ∧ s' = s.endFlush true := by
    cases a with
    | io result read shown =>
      simp only [step] at hs
      split at hs
      · rename_i hdue
        cases result with
        | ok n =>
          simp only [refusesLastFlush, Bool.and_eq_true, decide_eq_true_eq] at hrefused
          obtain ⟨hphase, rfl⟩ := hrefused
          simp only [ioStep, hphase, flushStep, if_true] at hs
          exact ⟨hdue, hphase, (Option.some.inj hs).symm⟩
        | wouldBlock | closed =>
          have hphase : s.phase = .flush true := of_decide_eq_true hrefused
          simp only [ioStep, hphase, flushStep] at hs
          exact ⟨hdue, hphase, (Option.some.inj hs).symm⟩
        | eio | failed => cases hrefused
      · cases hs
    | types | ends | cancelled | poll | pollFails | skip | checkHangUp => cases hrefused
  obtain ⟨hdue, hphase, rfl⟩ := hend
  refine ⟨rfl, fun hall => ?_⟩
  have hleft := hinv.detached_sent rfl
  rw [← hall] at hleft
  have hrest : s.pending.rest = [] := List.append_right_eq_self.mp hleft
  rw [due, hphase, decide_eq_true_eq] at hdue
  rw [Pending.rest, List.drop_eq_nil_iff] at hrest
  exact absurd hdue (Nat.not_lt.mpr hrest)

/-! ## What a run sends -/

/-- In every run the relay has sent a part of what was typed before the detach byte, in order. If the socket refuses no write
of the last flush, it has sent all of it when it detaches; if it does, the relay detaches without. -/
theorem detach_sends :
    (∀ s, Reachable (step name) anyStep Initial s → s.sent <+: beforeFirst detachByte s.typed) ∧
    (∀ s, Reachable (step name) (fun s a => refusesLastFlush s a = false) Initial s →
      s.phase = .returned (.ok .detached) → s.sent = beforeFirst detachByte s.typed) ∧
    (∀ s a s', Reachable (step name) anyStep Initial s → refusesLastFlush s a = true → step name s a = some s' →
      s'.phase = .returned (.ok .detached) ∧ s'.sent ≠ beforeFirst detachByte s'.typed) := by
  refine ⟨fun s hr => (inv_of_reachable hr).sent_le, fun s hr hp => ?_,
    fun s a s' hr hrefused => step_refused (inv_of_reachable hr) hrefused⟩
  have hflushed : Flushed s := hr.invariant (fun t ht => by rw [ht]; exact nofun) fun _ _ _ hf hok hs => step_flushed hf hok hs
  have hall := (inv_of_reachable hr).detached_sent hp
  rwa [hflushed hp, List.append_nil] at hall

/-- The letter and Ctrl-] are read at once. -/
def typedAtOnce : List Act :=
  [.types [0x61, 0x1d], .poll { readable := true } {}, .skip, .io (.ok 2) [] none]

/-- The socket takes the letter. -/
theorem detach_sends_letter : ∃ s, run (step "demo") {} (typedAtOnce ++ [.io (.ok 1) [] none, .skip]) = some s ∧
    s.phase = .returned (.ok .detached) ∧ s.sent = beforeFirst detachByte s.typed := by
  have hcheck : ∀ (s : St) (a : Act), (!refusesLastFlush s a) = true → refusesLastFlush s a = false := by
    intro s a h
    simpa using h
  have hstart : Reachable (step "demo") (fun s a => refusesLastFlush s a = false) Initial {} := .start rfl
  have hmeet : StepsMeet (step "demo") (fun s a => refusesLastFlush s a = false) {}
      (typedAtOnce ++ [.io (.ok 1) [] none, .skip]) := StepsMeet.of_checks hcheck (by decide)
  obtain ⟨s, hs, hphase⟩ : ∃ s, run (step "demo") {} (typedAtOnce ++ [.io (.ok 1) [] none, .skip]) = some s ∧
      s.phase = .returned (.ok .detached) := ⟨_, rfl, rfl⟩
  exact ⟨s, hs, hphase, detach_sends.2.1 s (hstart.run hmeet hs) hphase⟩

/-- The socket is full: the letter is lost. -/
theorem detach_loses_letter : ∃ s, run (step "demo") {} (typedAtOnce ++ [.io .wouldBlock [] none]) = some s ∧
    s.phase = .returned (.ok .detached) ∧ beforeFirst detachByte s.typed = [0x61] ∧ s.sent = [] :=
  ⟨_, rfl, rfl, by decide, rfl⟩

end Firestone.Console.Relay
