import Firestone.State
import Firestone.Lib.Programs

/-!
# The shim and what it acts on

A shim launches the sidecars and the VMM of one machine, watches them and stops them. It is a program over a `World`: the
live processes of the launch, `state.json`, the runtime directory with `identity.json`, and the variables of `run_shim`.

* `Answer`, `interact`, `call` — every operation on the outside takes one answer of the environment: which processes have
  exited by now, whether the shim is killed there, how the call goes.
* `observeExit`, `recordedProcessAlive`, `verifyProcess` — the ways to look at a process. They err, but they do not take a
  live process for a dead one.
* `publishProcessIdentity`, `writeState`, `writeFinalState`, `writeRecoverableFailedState`, `writeAmbiguousFailedState`,
  `cleanupAfterShim` — the evidence that the shim leaves.

Signals have no effect of their own: a process exits when an answer says so. The descendants of the VMM and the artifacts
of the sidecars are left out.
-/

namespace Firestone.Shim

open Firestone.Lib

/-! ## Processes -/

/-- The command of the launch plan that a process runs: its executable, its arguments and its launch binding. -/
inductive Role where
  | vmm
  | sidecar (name : String)
  deriving DecidableEq, Repr

/-- A process of the launch. A reused pid has another start time. -/
structure Proc where
  role : Role
  pid : Nat
  startTimeTicks : Nat
  deriving DecidableEq, Repr

/-- A process record. One that is not bound yet has no start time. -/
structure ProcessRecord where
  role : Role
  pid : Nat
  startTimeTicks : Option Nat
  deriving DecidableEq, Repr

/-- The record that `/proc` gives of a process. -/
def Proc.record (p : Proc) : ProcessRecord := ⟨p.role, p.pid, some p.startTimeTicks⟩

/-- The record that a spawn gives of a process. -/
def Proc.unbound (p : Proc) : ProcessRecord := ⟨p.role, p.pid, none⟩

theorem Proc.record_injective {p q : Proc} (h : p.record = q.record) : p = q := by
  cases p
  cases q
  simp [Proc.record] at h
  simp [h]

/-- The contents of `identity.json`. Of the shim only the pid matters here. -/
structure ProcessIdentity where
  shim : Nat
  vmm : Option ProcessRecord
  sidecars : List (String × ProcessRecord)
  deriving DecidableEq, Repr

/-- The runtime directory, with `identity.json` if it is there. -/
structure RuntimeDir where
  identity : Option ProcessIdentity
  deriving DecidableEq, Repr

/-- `BTreeMap::insert`. -/
def withKey {α : Type} (name : String) (value : α) (l : List (String × α)) : List (String × α) :=
  (name, value) :: l.filter fun x => x.1 ≠ name

/-- `BTreeMap::remove`. -/
def withoutKey {α : Type} (name : String) (l : List (String × α)) : List (String × α) := l.filter fun x => x.1 ≠ name

/-! ## The launch plan -/

inductive NetworkPlan where
  | none
  | tap (name : String)
  | passt (socket : String) (forwards : List String)
  deriving DecidableEq, Repr

structure VirtiofsPlan where
  index : Nat
  tag : String
  socket : String
  log : String
  host : String
  guest : String
  readonly : Bool
  deriving DecidableEq, Repr

/-- The launch plan. The index of a file system is its place among the mounts. -/
structure LaunchPlan where
  name : String
  network : NetworkPlan
  filesystems : List VirtiofsPlan
  restoreSnapshot : Option String
  vmmLog : String
  indices_nodup : (filesystems.map VirtiofsPlan.index).Nodup

def VirtiofsPlan.sidecar (fs : VirtiofsPlan) : String := "virtiofsd-" ++ toString fs.index

def NetworkPlan.sidecars : NetworkPlan → List String
  | .passt _ _ => ["passt"]
  | .none | .tap _ => []

/-- The names of `sidecar_expectations`, in the order of the launch. -/
def LaunchPlan.sidecars (plan : LaunchPlan) : List String :=
  plan.network.sidecars ++ plan.filesystems.map VirtiofsPlan.sidecar

/-! ## Events and answers -/

/-- What a client of the control socket is sent: progress events, then a terminal response. -/
inductive Reply where
  | stepStart (id label : String)
  | stepUpdate (id detail : String)
  | stepDone (id : String) (detail : Option String)
  | stepSkip (id reason : String)
  | ok
  | error (e : FirestoneError)
  | status (status : MachineStatus) (shim : Nat) (vmm : Option Nat) (sidecars : List (String × Nat))
      (startedAt : Option String) (degraded : List String)
  deriving DecidableEq, Repr

structure ExitStatus where
  code : Option Int := none
  signal : Option Int := none
  deriving DecidableEq, Repr

inductive ControlRequest where
  | launch
  | status
  | stop (timeoutS : Nat) (force : Bool)
  | ping
  deriving DecidableEq, Repr

/-- What `accept` and the reading of a request give. -/
inductive Accepted where
  | wouldBlock
  | failed (e : FirestoneError)
  /-- The connection cannot be made nonblocking. -/
  | unprepared
  /-- The peer or its request is refused. -/
  | refused (e : FirestoneError)
  | request (r : ControlRequest)
  deriving DecidableEq, Repr

/-- How one operation on the outside goes. -/
structure Answer where
  /-- The processes that have exited since the last operation. -/
  exited : List Proc := []
  /-- The shim has been sent `SIGINT` or `SIGTERM`. -/
  signal : Bool := false
  /-- The shim is killed before the operation. -/
  killed : Bool := false
  error : Option FirestoneError := none
  /-- A deadline has passed. -/
  expired : Bool := false
  /-- How many turns of a loop its deadline leaves room for. -/
  polls : Nat := 0
  status : ExitStatus := {}
  /-- The pid and the start time of a new process. -/
  child : Nat × Nat := (0, 0)
  /-- The processes that a scan of `/proc` misses. -/
  hidden : List Proc := []
  /-- The pid that a ping of the VMM reports. -/
  pid : Nat := 0
  /-- The answer to a yes-or-no question of the operation. -/
  yes : Bool := false
  accepted : Accepted := .wouldBlock
  text : String := ""

/-- What `launch_vmm` has done so far. A request that changes the VM counts when it is made. -/
inductive LaunchStep where
  | spawned (role : Role)
  | ready (name : String)
  | answered
  | vmRestore
  | vmResume
  | vmCreate
  | vmBoot
  deriving DecidableEq, Repr

/-! ## The world -/

/-- `OwnedVmm`: the child, whether `process` still holds it, and its record. -/
structure OwnedVmm where
  child : Proc
  process : Bool
  record : ProcessRecord
  reapedStatus : Option ExitStatus
  deriving DecidableEq, Repr

/-- `OwnedSidecar`. -/
structure OwnedSidecar where
  name : String
  child : Proc
  process : Bool
  record : ProcessRecord
  reapedStatus : Option ExitStatus
  deriving DecidableEq, Repr

/-- `RecoveredProcess`: the process that its pidfd pins. -/
structure RecoveredProcess where
  label : String
  process : Proc
  deriving DecidableEq, Repr

structure World where
  env : List Answer
  -- outside the shim
  alive : List Proc
  stateFile : MachineState
  runtime : Option RuntimeDir
  -- the variables of `run_shim` and of the frames below it
  state : MachineState
  identity : ProcessIdentity
  terminating : Bool
  launched : Bool
  vmm : Option OwnedVmm
  sidecars : List OwnedSidecar
  recoveredVmm : Option Proc
  recoveredSidecars : List RecoveredProcess
  recoveryApiPending : Bool
  /-- `OWNER_EVIDENCE_PID` once `OWNER_EVIDENCE_STATE` is `OWNER_REAPED`. -/
  ownerReaped : Option Nat
  -- what has happened
  sent : List Reply
  steps : List LaunchStep
  /-- A look for sidecars missed a live one. -/
  missed : Bool
  /-- A failed launch found live sidecars and could not publish them. -/
  unpublished : Bool

abbrev ShimProg := Prog World FirestoneError

/-- The record that `identity.json` holds. -/
def World.identityFile (w : World) : Option ProcessIdentity := w.runtime.bind RuntimeDir.identity

def World.setState (f : MachineState → MachineState) (w : World) : World := { w with state := f w.state }

def World.setIdentity (f : ProcessIdentity → ProcessIdentity) (w : World) : World := { w with identity := f w.identity }

/-! ## Operations -/

open Prog

/-- One operation on the outside. -/
def interact : ShimProg Answer := fun w =>
  let a := w.env.headD {}
  let w' := { w with
    env := w.env.tail, alive := w.alive.filter fun p => p ∉ a.exited, terminating := w.terminating || a.signal }
  if a.killed then (.killed, w') else (.ok a, w')

/-- An operation that may fail. -/
def call : ShimProg Answer := do
  let a ← interact
  match a.error with
  | some e => fail e
  | none => pure a

def setState (f : MachineState → MachineState) : ShimProg Unit := modify (World.setState f)

def setIdentity (f : ProcessIdentity → ProcessIdentity) : ShimProg Unit := modify (World.setIdentity f)

/-- `EventSink::emit` of the shim's sinks, which never fails. -/
def emit (r : Reply) : ShimProg Unit := modify fun w => { w with sent := w.sent ++ [r] }

def note (s : LaunchStep) : ShimProg Unit := modify fun w => { w with steps := w.steps ++ [s] }

/-- `ProcessDiagnostic::exit_error` for a child that has been reaped. The text of the answer stands for its command, its
status and the end of its log. -/
def exitError {α : Type} (context hint : String) : ShimProg α := do
  let a ← interact
  fail ((FirestoneError.new .dependency (context ++ ": command " ++ a.text)).withHint hint)

/-- `ensure_launch_before_deadline`. -/
def ensureLaunchBeforeDeadline (phase : String) : ShimProg Unit := do
  if (← interact).expired then
    fail (.new .timeout ("overall shim launch deadline expired while " ++ phase))

/-- `stop_phase_timeout`. -/
def stopPhaseTimeout : ShimProg Unit := do
  if (← interact).expired then fail (.new .timeout "overall shim stop deadline expired")

/-! ## Looking at processes -/

/-- `ManagedProcess::observe_exit`. A `waitid` for a child that still runs does not fail. -/
def observeExit (child : Proc) : ShimProg Bool := do
  let a ← interact
  if child ∈ (← get).alive then pure false
  else
    match a.error with
    | some e => fail e
    | none => pure true

/-- `recorded_process_alive`. -/
def recordedProcessAlive (record : ProcessRecord) : ShimProg Bool := do
  let _ ← call
  return (← get).alive.any fun p => p.record = record

/-- `verify_linux_process`. -/
def verifyProcess (record : ProcessRecord) : ShimProg Unit := do
  let _ ← call
  if (← get).alive.all fun p => p.record ≠ record then
    fail (.new .conflict ("recorded process id " ++ toString record.pid ++ " was reused or changed"))

/-- `RecoveredProcess::is_alive`, a poll of the pidfd. -/
def isAlive (process : Proc) : ShimProg Bool := do
  let _ ← call
  return process ∈ (← get).alive

/-- `wait_for_record_exit`. -/
def waitForRecordExit (record : ProcessRecord) : ShimProg Unit := do
  let a ← interact
  repeatUntil (do return !(← recordedProcessAlive record)) a.polls
  if ← recordedProcessAlive record then
    fail (.new .timeout ("verified VMM pid " ++ toString record.pid ++ " did not exit"))

/-- `signal_verified_tree_preserving`, and with `SIGKILL` the wait for the descendants. -/
def signalVerifiedTree (record : ProcessRecord) : ShimProg Unit := do
  verifyProcess record
  let _ ← call
  verifyProcess record
  let _ ← call

/-- `terminate_recovered_process`. -/
def terminateRecoveredProcess (record : ProcessRecord) : ShimProg Unit := do
  if ← recordedProcessAlive record then
    signalVerifiedTree record
    let a ← interact
    repeatUntil (do return !(← recordedProcessAlive record)) a.polls
    when (← recordedProcessAlive record) (signalVerifiedTree record)
    waitForRecordExit record

/-! ## The evidence -/

/-- `publish_process_identity`: an atomic write, which needs the runtime directory. -/
def publishProcessIdentity : ShimProg Unit := do
  let _ ← call
  if (← get).runtime.isSome then
    modify fun w => { w with runtime := some ⟨some w.identity⟩ }
    let _ ← call
  else fail (.new .generic "cannot write the process identity")

/-- `StateStore::write_from_shim`. The directory is synchronised after the new file is in place. -/
def writeState : ShimProg Unit := do
  ofExcept (← get).state.validate
  let _ ← call
  modify fun w => { w with stateFile := w.state }
  let _ ← call

/-- `last_exit`. -/
def lastExit (exitAt : String) (status : Option ExitStatus) (reason : ExitReason) : LastExit :=
  ⟨exitAt, status.bind ExitStatus.code, status.bind ExitStatus.signal, reason⟩

/-- `write_final_state`. -/
def writeFinalState (status : MachineStatus) (processStatus : Option ExitStatus) (reason : ExitReason) : ShimProg Unit := do
  let a ← interact
  setState fun st => finalState st status (lastExit a.text processStatus reason)
  writeState

/-- `write_recoverable_failed_state`. -/
def writeRecoverableFailedState (record : ProcessRecord) (e : FirestoneError) : ShimProg Unit := do
  let a ← interact
  setState fun st => { st with
    status := .failed, shimPid := none, vmmPid := some record.pid, degraded := [],
    lastExit := some (lastExit a.text none (.failure (e.message ++ "; VMM recovery evidence retained"))) }
  writeState

/-- `write_ambiguous_failed_state`. -/
def writeAmbiguousFailedState (e : FirestoneError) : ShimProg Unit := do
  let a ← interact
  setState fun st => { st with
    status := .failed, shimPid := none,
    lastExit := some (lastExit a.text none
      (.failure (e.message ++ "; process absence was not proven and runtime evidence was retained"))) }
  writeState

/-- `merge_console_log`. -/
def mergeConsoleLog : ShimProg Unit := do
  let _ ← call

/-- `cleanup_after_shim`: the files of the runtime directory go before the directory itself. -/
def cleanupAfterShim : ShimProg Unit := do
  let _ ← call
  if (← get).runtime.isSome then
    modify fun w => { w with runtime := some ⟨none⟩ }
    let _ ← call
    modify fun w => { w with runtime := none }
    let _ ← call

/-- `safe_vmm_failure_reason`: what the log says, or else the fallback. -/
def safeVmmFailureReason (fallback : String) : ShimProg String := do
  let a ← interact
  return if a.error.isSome ∨ a.text = "" then fallback else a.text

end Firestone.Shim
