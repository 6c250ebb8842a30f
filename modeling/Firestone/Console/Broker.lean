import Firestone.Error
import Firestone.Lib.Bytes
import Firestone.Lib.Pipes
import Firestone.Lib.Runs

/-!
# The console broker

The broker relays between the PTY of a machine and at most one console client, and copies the output of the PTY to a
staging log. `broker_loop` is one poll loop; here each of its operations is a step of its own, so that the guest and the
clients act between any two of them. The result of an operation of the system, how many bytes it moves or how it fails,
comes with the action.

* `acceptStep`, `pollStep`, `ptyWriteStep`, `clientWriteStep`, `ptyReadStep`, `clientReadStep`, `hangUpStep` — the
  operations of the loop.
* `step` — the broker, the guest and the clients.
-/

namespace Firestone.Console

open Firestone.Lib

/-! ## The streams -/

def consoleBufferBytes : Nat := 16 * 1024

def maxPendingClientOutput : Nat := 1024 * 1024

def consoleOk : Bytes := bytes "OK\n"

def consoleBusy : Bytes := bytes "BUSY\n"

def consoleIoError (name operation : String) : FirestoneError :=
  (FirestoneError.new .generic s!"cannot {operation} for machine `{name}`").withHint
    "retry the console connection; if it fails again, inspect the machine shim and console logs"

inductive ConnStatus
  /-- The broker holds the stream. -/
  | attached
  /-- The broker acknowledged the client and has closed the stream. -/
  | detached
  /-- The client was never acknowledged. -/
  | refused
  deriving DecidableEq, Repr

/-- A connection the broker has accepted: what the client has sent and how much of it the broker has read, and what the
broker has written to it. `attachedAt` is how much output of the PTY had been read when it was acknowledged. -/
structure Conn where
  sent : Bytes
  taken : Nat := 0
  received : Bytes
  status : ConnStatus
  attachedAt : Nat
  deriving DecidableEq

/-- What the broker has read of a client. -/
def Conn.input (c : Conn) : Bytes := c.sent.take c.taken

/-- The client sends more. -/
def Conn.send (input : Bytes) (c : Conn) : Conn := { c with sent := c.sent ++ input }

/-- The broker reads more. -/
def Conn.read (n : Nat) (c : Conn) : Conn := { c with taken := c.taken + n }

/-- The broker writes more. -/
def Conn.deliver (output : Bytes) (c : Conn) : Conn := { c with received := c.received ++ output }

def Conn.close (c : Conn) : Conn := { c with status := .detached }

/-- What `poll` reports of a descriptor: `POLLIN`, `POLLOUT`, and `POLLHUP` or `POLLERR`. -/
structure Events where
  readable : Bool := false
  writable : Bool := false
  hangUp : Bool := false
  deriving DecidableEq, Repr

/-- The operation of the loop that is next. -/
inductive Phase
  | top
  | accept
  | ptyWrite
  | clientWrite
  | ptyRead
  | clientRead
  | hangUp
  | returned (result : Res Unit)
  deriving DecidableEq

structure St where
  /-- What the guest has written to the PTY, and how much of it the broker has read. -/
  ptyOutput : Bytes := []
  ptyRead : Nat := 0
  /-- What the broker has written to the PTY. -/
  ptyInput : Bytes := []
  log : Bytes := []
  /-- The connections in the order they were accepted. -/
  conns : List Conn := []
  -- the variables of the loop
  phase : Phase := .top
  listenerEvents : Events := {}
  ptyEvents : Events := {}
  clientEvents : Events := {}
  active : Option Nat := none
  guestInput : Pending UInt8 := {}
  clientOutput : Pending UInt8 := {}
  deriving DecidableEq

/-! ## The broker -/

/-- The result of a read or a write: `closed` are the kinds of `console_closed`. -/
inductive IoResult
  | ok (n : Nat)
  | wouldBlock
  | closed
  | eio
  | failed
  deriving DecidableEq, Repr

/-- How the answer to a new connection goes. -/
inductive Answer
  /-- The timeout for the answer cannot be set. -/
  | unbounded
  | written
  /-- The write fails after some bytes. -/
  | cut (n : Nat)
  /-- The answer is written, and the stream cannot be made ready for the loop. -/
  | unprepared (operation : String)
  deriving DecidableEq, Repr

inductive AcceptResult
  /-- A client that may have sent bytes already. -/
  | connection (early : Bytes) (answer : Answer)
  | wouldBlock
  | failed
  deriving DecidableEq, Repr

/-- Closes the stream of the active client. -/
def St.detach (s : St) : St :=
  match s.active with
  | some i => { s with active := none, conns := s.conns.modify i Conn.close }
  | none => s

/-- The end of the loop: its variables are dropped. -/
def St.return (s : St) (result : Res Unit) : St := { s.detach with phase := .returned result }

def St.goto (s : St) (phase : Phase) : St := { s with phase }

section broker

variable (name : String)

def St.fail (s : St) (operation : String) : St := s.return (.error (consoleIoError name operation))

/-- One connection of `accept_clients`. -/
def acceptClient (s : St) (early : Bytes) (answer : Answer) : Option St :=
  let refuse (received : Bytes) : St :=
    { s with conns := s.conns ++ [{ sent := early, received, status := .refused, attachedAt := s.ptyRead }] }
  if s.active.isSome then
    match answer with
    | .unbounded => some ((refuse []).fail name "bound a console acknowledgement")
    | .written => some (refuse consoleBusy)
    | .cut n => some (refuse (consoleBusy.take n))
    | .unprepared _ => none
  else
    let acknowledge (status : ConnStatus) : St :=
      { s with conns := s.conns ++ [{ sent := early, received := consoleOk, status, attachedAt := s.ptyRead }] }
    match answer with
    | .unbounded => some ((refuse []).fail name "bound a console acknowledgement")
    | .cut n => some ((refuse (consoleOk.take n)).fail name "acknowledge a console client")
    | .unprepared operation => some ((acknowledge .detached).fail name operation)
    | .written => some { acknowledge .attached with active := some s.conns.length }

def acceptStep (s : St) : AcceptResult → Option St
  | .connection early answer => acceptClient name s early answer
  | .wouldBlock => some (s.goto .ptyWrite)
  | .failed => some (s.fail name "accept a console client")

/-- The top of the loop: the output for a client that is gone is cleared, and the descriptors are polled. There is none
for a client without one. -/
def pollStep (s : St) (listener pty client : Events) : St :=
  { s with
    clientOutput := if s.active.isNone then {} else s.clientOutput
    listenerEvents := listener, ptyEvents := pty, clientEvents := if s.active.isSome then client else {}
    phase := .accept }

def ptyWriteStep (s : St) : IoResult → Option St
  | .ok n =>
    if n ≤ s.guestInput.rest.length then
      some { s with
        ptyInput := s.ptyInput ++ s.guestInput.rest.take n
        guestInput := if n = 0 then s.guestInput else s.guestInput.advance n, phase := .clientWrite }
    else none
  | .wouldBlock => some (s.goto .clientWrite)
  | _ => some (s.fail name "write the console PTY")

/-- A write to the active client, whose stream has room for some of the output. -/
def clientWriteStep (s : St) (i : Nat) : IoResult → Option St
  | .ok n =>
    if n = 0 then some (s.detach.goto .ptyRead)
    else if n ≤ s.clientOutput.rest.length then
      some { s with
        conns := s.conns.modify i (Conn.deliver (s.clientOutput.rest.take n))
        clientOutput := s.clientOutput.advance n, phase := .ptyRead }
    else none
  | .wouldBlock => some (s.goto .ptyRead)
  | .closed => some (s.detach.goto .ptyRead)
  | _ => some (s.fail name "relay PTY output to the console client")

/-- What is done with a part of the output: it is queued for the active client, unless that is too much. -/
def relay (s : St) (read : Bytes) : St :=
  if s.active.isSome then
    let pending := s.clientOutput.compact
    if pending.data.length + read.length > maxPendingClientOutput then { s.detach with clientOutput := {} }
    else { s with clientOutput := pending.push read }
  else s

/-- A read of the PTY. `logged` is how much of it was written to the log when that failed. -/
def ptyReadStep (s : St) (logged : Option Nat) : IoResult → Option St
  | .ok n =>
    let read := (s.ptyOutput.drop s.ptyRead).take n
    if n = 0 then some (s.goto .clientRead)
    else if n ≤ consoleBufferBytes ∧ s.ptyRead + n ≤ s.ptyOutput.length then
      match logged with
      | some k =>
        some (St.fail name { s with ptyRead := s.ptyRead + n, log := s.log ++ read.take k }
          "append PTY output to its staging log")
      | none => some ((relay { s with ptyRead := s.ptyRead + n, log := s.log ++ read } read).goto .clientRead)
    else none
  | .wouldBlock => some (s.goto .clientRead)
  | .eio => some (s.goto .clientRead)
  | _ => some (s.fail name "read the console PTY")

def clientReadStep (s : St) (i : Nat) : IoResult → Option St
  | .ok n => do
    let c ← s.conns[i]?
    if n = 0 then some (s.detach.goto .hangUp)
    else if n ≤ consoleBufferBytes ∧ c.taken + n ≤ c.sent.length then
      some { s with
        guestInput := s.guestInput.push ((c.sent.drop c.taken).take n)
        conns := s.conns.modify i (Conn.read n), phase := .hangUp }
    else none
  | .wouldBlock => some (s.goto .hangUp)
  | .closed => some (s.detach.goto .hangUp)
  | _ => some (s.fail name "read input from the console client")

def hangUpStep (s : St) : St :=
  if s.clientEvents.hangUp then { s.detach with clientOutput := {}, phase := .top } else s.goto .top

inductive Act
  /-- The guest writes to the PTY. -/
  | guestWrites (output : Bytes)
  /-- A client writes to its stream. -/
  | clientWrites (i : Nat) (input : Bytes)
  | cancelled
  | poll (listener pty client : Events)
  | pollFails
  | accept (result : AcceptResult)
  | io (result : IoResult) (logged : Option Nat)
  /-- The condition of the operation does not hold. -/
  | skip
  | checkHangUp

/-- The condition of the operation, and the client it is about. -/
def due (s : St) : Bool :=
  match s.phase with
  | .accept => s.listenerEvents.readable
  | .ptyWrite => s.ptyEvents.writable && s.guestInput.offset < s.guestInput.data.length
  | .clientWrite =>
    s.clientEvents.writable && (s.clientOutput.offset < s.clientOutput.data.length) && s.active.isSome
  | .ptyRead => s.ptyEvents.readable
  | .clientRead => s.clientEvents.readable && (s.guestInput.offset == s.guestInput.data.length) && s.active.isSome
  | _ => false

def Phase.next : Phase → Option Phase
  | .accept => some .ptyWrite
  | .ptyWrite => some .clientWrite
  | .clientWrite => some .ptyRead
  | .ptyRead => some .clientRead
  | .clientRead => some .hangUp
  | _ => none

def ioStep (s : St) (result : IoResult) (logged : Option Nat) : Option St :=
  match s.phase with
  | .ptyWrite => ptyWriteStep name s result
  | .clientWrite => s.active.bind fun i => clientWriteStep name s i result
  | .ptyRead => ptyReadStep name s logged result
  | .clientRead => s.active.bind fun i => clientReadStep name s i result
  | _ => none

def step (s : St) : Act → Option St
  | .guestWrites output => some { s with ptyOutput := s.ptyOutput ++ output }
  | .clientWrites i input => some { s with conns := s.conns.modify i (Conn.send input) }
  | .cancelled => if s.phase = .top then some (s.return (.ok ())) else none
  | .poll listener pty client => if s.phase = .top then some (pollStep s listener pty client) else none
  | .pollFails => if s.phase = .top then some (s.fail name "poll the console broker") else none
  | .accept result => if s.phase = .accept ∧ due s = true then acceptStep name s result else none
  | .io result logged => if due s = true then ioStep name s result logged else none
  | .skip => if due s = true then none else s.phase.next.map s.goto
  | .checkHangUp => if s.phase = .hangUp then some (hangUpStep s) else none

end broker

def Initial (s : St) : Prop := s = {}

end Firestone.Console
