import Firestone.Shim.Launch

/-!
# The supervisor

`run_shim` launches a machine once it is asked to, or adopts what an earlier shim has left running, and supervises it until
it is stopped, exits or cannot be supervised any more.

* `recoverVmmRecord`, `recoverSidecarProcesses`, `adopt` — what a replacement shim takes over.
* `stopOwnedVmm`, `stopRecoveredVmm` — a stop.
* `turn`, `supervise` — the loop.
* `finalizeSupervisorResult` — the last cleanup after an error.
* `runShim` — all of it, with the drops at its end.
-/

namespace Firestone.Shim

open Firestone.Lib Prog

/-! ## Recovery -/

/-- A replacement shim does not run beside the recorded one. -/
def ensureOldShimGone (plan : LaunchPlan) (pid : Nat) : ShimProg Unit := do
  match (← get).state.shimPid.filter fun old => old ≠ pid with
  | none => pure ()
  | some old =>
    if (← call).yes then
      if (← get).identityFile.any fun i => i.shim = old then
        let _ ← call
        fail (.new .alreadyRunning ("machine `" ++ plan.name ++ "` still has a verified live shim"))
      else fail (.new .conflict ("cannot prove recorded shim pid " ++ toString old ++ " stale"))
    else pure ()

/-- The VMM that `identity.json` names, if it is alive. -/
def recordedVmm : ShimProg (List ProcessRecord) := do
  match (← get).identityFile.bind ProcessIdentity.vmm with
  | some record =>
    if ← recordedProcessAlive record then
      verifyProcess record
      pure [record]
    else pure []
  | none => pure []

/-- Candidates are kept by a recorded pid. -/
def retainPid (recorded : Option Nat) (candidates : List ProcessRecord) : List ProcessRecord :=
  match recorded with
  | some pid => candidates.filter fun r => r.pid = pid
  | none => candidates

/-- `recover_linux_vmm_record`: the one VMM, and whether its API answers. -/
def recoverVmmRecord (plan : LaunchPlan) (pid : Nat) : ShimProg (ProcessRecord × Bool) := do
  ensureOldShimGone plan pid
  let known ← recordedVmm
  let scanned ← scanProcesses .vmm
  let candidates := known ++ scanned.filter fun r => known.all fun c => c.pid ≠ r.pid
  match retainPid (← get).state.vmmPid candidates with
  | [record] =>
    verifyProcess record
    match ← attempt call with
    | .ok ping =>
      if ping.pid = record.pid then pure (record, true)
      else
        fail (.new .conflict
          ("VMM API pid " ++ toString ping.pid ++ " does not match recovered pid " ++ toString record.pid))
    | .error _ => pure (record, false)
  | candidates =>
    fail ((FirestoneError.new .conflict ("machine `" ++ plan.name ++ "` recovery found " ++ toString candidates.length ++
      " strictly matching VMM processes")).withHint
      "refusing to launch a duplicate or guess between process identities")

/-- `RecoveredProcess::new`: the pidfd is opened between two checks of the record. -/
def recoverProcess (label : String) (record : ProcessRecord) : ShimProg RecoveredProcess := do
  verifyProcess record
  let _ ← call
  let _ ← call
  match (← get).alive.find? fun p => p.record = record with
  | some p => return ⟨label, p⟩
  | none => fail (.new .conflict ("recorded process id " ++ toString record.pid ++ " was reused or changed"))

/-- The sidecars that a replacement shim has found, and the recorded ones that it has not. -/
structure RecoveredSidecarSet where
  processes : List RecoveredProcess := []
  missing : List String := []

def RecoveredSidecarSet.records (set : RecoveredSidecarSet) : List (String × ProcessRecord) :=
  set.processes.map fun s => (s.label, s.process.record)

/-- One sidecar of `recover_sidecar_processes`. -/
def recoverSidecar (previous : List (String × Nat)) (set : RecoveredSidecarSet) (name : String) :
    ShimProg RecoveredSidecarSet := do
  let recorded := (← get).identityFile.bind fun i => i.sidecars.lookup name
  let candidates ← sidecarCandidates name recorded ("recorded " ++ name ++ " process does not match its launch plan")
  match retainPid (previous.lookup name) candidates with
  | [] => do
    setState fun st => { st with sidecarPids := withoutKey name st.sidecarPids }
    if (previous.lookup name).isSome ∨ recorded.isSome then
      return { set with missing := set.missing ++ [name] }
    else return set
  | [record] => do
    verifyProcess record
    setState fun st => { st with sidecarPids := withKey name record.pid st.sidecarPids }
    let process ← recoverProcess name record
    return { set with processes := set.processes ++ [process] }
  | candidates =>
    fail (.new .conflict
      ("sidecar recovery found " ++ toString candidates.length ++ " matching " ++ name ++ " processes"))

/-- `recover_sidecar_processes`. -/
def recoverSidecarProcesses (plan : LaunchPlan) : ShimProg RecoveredSidecarSet := do
  let w ← get
  match w.state.sidecarPids.find? fun x => x.1 ∉ plan.sidecars with
  | some (name, _) => fail (.new .conflict ("state records unexpected sidecar `" ++ name ++ "`"))
  | none =>
    match ((w.identityFile.map ProcessIdentity.sidecars).getD []).find? fun x => x.1 ∉ plan.sidecars with
    | some (name, _) => fail (.new .conflict ("process identity records unexpected sidecar `" ++ name ++ "`"))
    | none => plan.sidecars.foldlM (recoverSidecar w.state.sidecarPids) {}

def vmmApiUnresponsive : String := "vmm API unresponsive"

/-- `set_vmm_api_degraded`. -/
def setVmmApiDegraded (unresponsive : Bool) (st : MachineState) : MachineState :=
  let others := st.degraded.filter fun marker => marker ≠ vmmApiUnresponsive
  { st with degraded := if unresponsive then others ++ [vmmApiUnresponsive] else others }

/-- The state of a machine whose VMM is adopted. -/
def adoptedState (pid vmmPid : Nat) (apiReady : Bool) (now : String) (st : MachineState) : MachineState :=
  let adopted := { st with shimPid := some pid, vmmPid := some vmmPid }
  if apiReady then
    setVmmApiDegraded false { adopted with status := .running, startedAt := adopted.startedAt <|> some now }
  else if st.status = .running then setVmmApiDegraded true { adopted with status := .running }
  else setVmmApiDegraded false { adopted with status := .starting }

/-- What the loop needs to know of a recovery. -/
structure Recovery where
  fromStarting : Bool := false
  missing : List String := []

/-- The part of `run_shim` for a machine that is not to be launched. -/
def adopt (plan : LaunchPlan) (pid : Nat) : ShimProg Recovery := do
  let priorStatus := (← get).state.status
  if priorStatus = .starting ∨ priorStatus = .running then
    let (record, apiReady) ← recoverVmmRecord plan pid
    let set ← recoverSidecarProcesses plan
    let a ← interact
    setState (adoptedState pid record.pid apiReady a.text)
    when (priorStatus = .running) (setState fun st =>
      set.missing.foldl (fun st name => addDegraded (name ++ " exited (status unavailable)") st) st)
    setIdentity fun _ => ⟨pid, some record, set.records⟩
    let vmm ← recoverProcess "VMM" record
    modify fun w => { w with
      recoveredVmm := some vmm.process, recoveredSidecars := set.processes, recoveryApiPending := !apiReady }
    return ⟨priorStatus = .starting, set.missing⟩
  else fail (.new .conflict ("machine `" ++ plan.name ++ "` is not in a shim-recoverable state"))

/-! ## A stop -/

/-- Where the progress events of a stop go. -/
abbrev EventSink := Reply → ShimProg Unit

def silent : EventSink := fun _ => pure ()

/-- `vmm.shutdown`, if there is time for it. -/
def shutDownVmm : ShimProg Unit := do
  match ← attempt stopPhaseTimeout with
  | .ok _ =>
    let _ ← interact
  | .error _ => pure ()

/-- The wait for the guest after the power button. The result is whether the VMM has reported a shutdown. -/
def awaitGuestShutdown (v : OwnedVmm) : Nat → Bool → ShimProg Bool
  | 0, seen => pure seen
  | n + 1, seen => do
    if ← v.observeExit then pure seen
    else
      match ← attempt stopPhaseTimeout with
      | .error _ => pure seen
      | .ok _ =>
        let info ← interact
        if info.error.isNone ∧ info.yes then
          shutDownVmm
          awaitGuestShutdown v n true
        else awaitGuestShutdown v n seen

/-- The wait comes only after a power button that has worked. -/
def awaitPowered (v : OwnedVmm) (power : Answer) : ShimProg Bool :=
  if power.error.isNone then awaitGuestShutdown v power.polls false else pure false

/-- The part of `stop_owned_vmm` that ends the VMM. -/
def endOwnedVmm (events : EventSink) (force : Bool) (v : OwnedVmm) : ShimProg (ExitStatus × ExitReason) := do
  if force then
    return (← v.terminateAndReap false, .failure "forced stop")
  else
    stopPhaseTimeout
    let power ← interact
    let seen ← awaitPowered v power
    if ← v.observeExit then
      return (← v.reapExitedGroup, .guestShutdown)
    else
      events (.stepUpdate "stop" "graceful stop did not complete; sending SIGTERM then SIGKILL if needed")
      let status ← v.terminateAndReap true
      return (status, .failure <|
        if power.error.isSome then "VMM API failed during graceful stop"
        else if seen then "VMM shutdown API did not terminate the process"
        else "graceful stop timed out")

/-- `stop_owned_vmm`. -/
def stopOwnedVmm (events : EventSink) (force : Bool) (v : OwnedVmm) : ShimProg Unit := do
  setState fun st => { st with status := .stopping }
  events (.stepStart "stop" (if force then "force stop VMM" else "ACPI power button"))
  match (← get).identity.vmm with
  | none => fail (.new .conflict "running VMM has no process identity")
  | some recorded =>
    if recorded = v.record then
      let (status, reason) ← endOwnedVmm events force v
      setIdentity fun i => { i with vmm := none }
      stopOwnedSidecars
      writeFinalState .stopped (some status) reason
      events (.stepDone "stop" (((← get).state.lastExit.map fun e => e.reason.asStr) <|> some "stopped"))
    else fail (.new .conflict "running VMM identity does not match its owned child")

/-- `vmm.shutdown` of a recovered VMM, which has to be in time. -/
def shutDownRecovered : ShimProg Unit := do
  stopPhaseTimeout
  let _ ← interact

/-- The wait for the guest of a recovered VMM. -/
def awaitRecoveredShutdown (record : ProcessRecord) : Nat → ShimProg Unit
  | 0 => pure ()
  | n + 1 => do
    if ← recordedProcessAlive record then
      stopPhaseTimeout
      let info ← interact
      when (info.error.isNone && info.yes) shutDownRecovered
      awaitRecoveredShutdown record n
    else pure ()

/-- `SIGTERM` to a recovered VMM that has not ended after the power button. -/
def terminateGracefully (powerFailed : Bool) (record : ProcessRecord) : ShimProg ExitReason := do
  if ← recordedProcessAlive record then
    signalVerifiedTree record
    let a ← interact
    repeatUntil (do return !(← recordedProcessAlive record)) a.polls
    return .failure (if powerFailed then "VMM API failed during graceful stop" else "graceful stop timed out")
  else return .guestShutdown

/-- The part of `stop_recovered_vmm` that ends the VMM. -/
def endRecoveredVmm (force : Bool) (record : ProcessRecord) : ShimProg ExitReason := do
  if force then
    signalVerifiedTree record
    return .failure "forced stop"
  else
    stopPhaseTimeout
    let power ← interact
    when power.error.isNone (awaitRecoveredShutdown record power.polls)
    let reason ← terminateGracefully power.error.isSome record
    when (← recordedProcessAlive record) (signalVerifiedTree record)
    return reason

/-- The VMM is gone from the variables. -/
def forgetVmm : ShimProg Unit := do
  setIdentity fun i => { i with vmm := none }
  setState fun st => { st with vmmPid := none }

/-- `stop_recovered_vmm`. -/
def stopRecoveredVmm (events : EventSink) (force : Bool) (record : ProcessRecord) : ShimProg Unit := do
  verifyProcess record
  setState fun st => { st with status := .stopping }
  writeState
  events (.stepStart "stop" (if force then "force stop recovered VMM" else "ACPI power button for recovered VMM"))
  let reason ← endRecoveredVmm force record
  waitForRecordExit record
  forgetVmm
  stopRecoveredSidecars
  writeFinalState .stopped none reason
  events (.stepDone "stop" (some "recovered VMM stopped"))

/-! ## The loop -/

/-- A termination signal while the shim owns a VMM. -/
def terminateOwned (v : OwnedVmm) : ShimProg Unit := do
  let _ ← call
  match ← attempt (stopOwnedVmm silent false v) with
  | .ok _ =>
    mergeConsoleLog
    cleanupAfterShim
  | .error e =>
    match (← get).vmm with
    | none => fail e
    | some v =>
      match ← attempt (v.terminateAndReap true) with
      | .ok status =>
        forgetVmm
        stopOwnedSidecars
        finish .failed (some status) (.failure e.message)
      | .error cleanupError =>
        writeRecoverableFailedState v.record e
        fail cleanupError

/-- A termination signal while the shim has recovered a VMM. -/
def terminateRecovered (p : Proc) : ShimProg Unit := do
  let _ ← call
  match ← attempt (stopRecoveredVmm silent false p.record) with
  | .ok _ =>
    mergeConsoleLog
    cleanupAfterShim
  | .error e =>
    match ← attempt (do signalVerifiedTree p.record; waitForRecordExit p.record) with
    | .ok _ =>
      forgetVmm
      stopRecoveredSidecars
      finish .failed none (.failure e.message)
    | .error cleanupError =>
      writeRecoverableFailedState p.record e
      fail cleanupError

/-- A termination signal. -/
def terminate : ShimProg Unit := do
  match (← get).vmm with
  | some v => terminateOwned v
  | none =>
    match (← get).recoveredVmm with
    | some p => terminateRecovered p
    | none =>
      let reason := if (← get).launched then "shim received a termination signal" else "shim terminated before launch"
      writeFinalState .failed none (.failure reason)
      cleanupAfterShim

/-- A recovered VMM whose API has not answered until its deadline. -/
def recoveryTimedOut (plan : LaunchPlan) (p : Proc) : ShimProg Unit := do
  let timeoutError := FirestoneError.new .timeout
    ("recovered VMM API for machine `" ++ plan.name ++ "` did not become ready before its deadline")
  match ← attempt (terminateRecoveredProcess p.record) with
  | .ok _ =>
    forgetVmm
    stopRecoveredSidecars
    finish .failed none (.failure timeoutError.message)
    fail timeoutError
  | .error cleanupError =>
    setIdentity fun i => { i with vmm := some p.record }
    publishProcessIdentity
    writeRecoverableFailedState p.record timeoutError
    fail cleanupError

/-- A ping of the recovered VMM. Once it answers, the machine is running. -/
def pingRecovered (p : Proc) : ShimProg Unit := do
  let ping ← interact
  when (ping.error.isNone && ping.pid == p.pid) do
    modify fun w => { w with recoveryApiPending := false }
    setState fun st => setVmmApiDegraded false
      { st with status := .running, startedAt := st.startedAt <|> some ping.text }
    writeState

/-- The wait for the API of a recovered VMM, which goes on while the loop turns. -/
def recoveryTurn (plan : LaunchPlan) (r : Recovery) : ShimProg Unit := do
  if (← get).recoveryApiPending then
    match (← get).recoveredVmm with
    | none => fail (.new .generic "pending recovery lost its process identity")
    | some p =>
      if (← interact).expired && r.fromStarting then recoveryTimedOut plan p else pingRecovered p
  else pure ()

/-- The deadline of the launch request. -/
def launchDeadlineTurn (plan : LaunchPlan) : ShimProg Unit := do
  if (← get).launched then pure ()
  else
    let a ← interact
    when a.expired do
      let e := FirestoneError.new .timeout
        ("shim for machine `" ++ plan.name ++ "` received no launch request before its deadline")
      writeFinalState .failed none (.failure e.message)
      cleanupAfterShim
      fail e

/-- Whether the owned VMM has exited. Then the run is brought to its end. -/
def ownedExitTurn : ShimProg Bool := do
  match (← get).vmm with
  | none => pure false
  | some v =>
    if ← v.observeExit then
      let status ← v.reapExitedGroup
      let reason ← safeVmmFailureReason "VMM exited unexpectedly"
      forgetVmm
      stopOwnedSidecars
      finish .failed (some status) (.failure reason)
      pure true
    else pure false

/-- Whether the recovered VMM has exited. Then the run is brought to its end. -/
def recoveredExitTurn : ShimProg Bool := do
  match (← get).recoveredVmm with
  | none => pure false
  | some p =>
    if ← isAlive p then pure false
    else
      let reason ← safeVmmFailureReason "recovered VMM exited unexpectedly"
      forgetVmm
      stopOwnedSidecars
      stopRecoveredSidecars
      finish .failed none (.failure reason)
      pure true

/-- Sidecars that have exited degrade a running machine. -/
def sidecarTurn : ShimProg Unit := do
  if (← get).state.status = .running then
    reconcileOwnedSidecarExits (← get).sidecars
    reconcileRecoveredSidecarExits (← get).recoveredSidecars
  else pure ()

/-- A launch request. -/
def handleLaunch (plan : LaunchPlan) : ShimProg Unit := do
  if (← get).launched then
    emit (.error (.new .alreadyRunning ("machine `" ++ plan.name ++ "` launch was already requested")))
  else
    modify fun w => { w with launched := true }
    let _ ← call
    match ← attempt (launchVmm plan) with
    | .ok _ => emit .ok
    | .error e => failedLaunch plan e

/-- What is left after a stop that failed. -/
inductive AfterStop where
  | alive
  | completed (status : Option ExitStatus)
  | nothing

def afterFailedStop : ShimProg AfterStop := do
  match (← get).vmm with
  | some v =>
    if v.isFullyReaped then pure (.completed v.reapedStatus)
    else if ← v.observeExit then return .completed (some (← v.reapExitedGroup))
    else pure .alive
  | none =>
    match (← get).recoveredVmm with
    | some p => return if ← isAlive p then .alive else .completed none
    | none => pure .nothing

def maxStopTimeoutSeconds : Nat := 60 * 60

/-- The part of a stop request that ends the machine. -/
def stopMachine (force : Bool) : ShimProg Unit := do
  match (← get).vmm with
  | some v => stopOwnedVmm emit force v
  | none =>
    match (← get).recoveredVmm with
    | some p => stopRecoveredVmm emit force p.record
    | none => writeFinalState .stopped none .guestShutdown

/-- What a stop that failed with `e` comes to: whether the shim is done. -/
def settleStop (statusBeforeStop : MachineStatus) (e : FirestoneError) : AfterStop → ShimProg Bool
  | .alive => do
    setState fun st => { st with status := statusBeforeStop }
    writeState
    emit (.error e)
    pure false
  | .completed status => do
    forgetVmm
    stopOwnedSidecars
    stopRecoveredSidecars
    finish .stopped status .guestShutdown
    emit .ok
    pure true
  | .nothing => do
    emit (.error e)
    pure false

/-- A stop request: whether the shim is done. -/
def handleStop (timeoutS : Nat) (force : Bool) : ShimProg Bool := do
  if timeoutS > maxStopTimeoutSeconds then
    emit (.error (.new .usage ("stop timeout exceeds the " ++ toString maxStopTimeoutSeconds ++ " second limit")))
    pure false
  else
    let _ ← call
    let statusBeforeStop := (← get).state.status
    match ← attempt (stopMachine force) with
    | .ok _ =>
      mergeConsoleLog
      cleanupAfterShim
      emit .ok
      pure true
    | .error e => settleStop statusBeforeStop e (← afterFailedStop)

/-- One control connection: whether the shim is done. -/
def acceptTurn (plan : LaunchPlan) (pid : Nat) : ShimProg Bool := do
  match (← interact).accepted with
  | .wouldBlock | .unprepared => pure false
  | .failed e => fail e
  | .refused e =>
    emit (.error e)
    pure false
  | .request .ping =>
    emit .ok
    pure false
  | .request .status =>
    let st := (← get).state
    emit (.status st.status pid st.vmmPid st.sidecarPids st.startedAt st.degraded)
    pure false
  | .request .launch =>
    handleLaunch plan
    pure false
  | .request (.stop timeoutS force) => handleStop timeoutS force

/-- One turn of the loop: whether the shim is done. -/
def turn (plan : LaunchPlan) (pid : Nat) (r : Recovery) : ShimProg Bool := do
  let _ ← interact
  if (← get).terminating then
    terminate
    pure true
  else
    recoveryTurn plan r
    launchDeadlineTurn plan
    if ← ownedExitTurn then pure true
    else if ← recoveredExitTurn then pure true
    else
      sidecarTurn
      acceptTurn plan pid

/-- The loop. A run is followed for `n` turns, and cut off there. -/
def supervise (plan : LaunchPlan) (pid : Nat) (r : Recovery) : Nat → ShimProg Unit
  | 0 => kill
  | n + 1 => do if ← turn plan pid r then pure () else supervise plan pid r n

/-- The supervisor: a recovery of an incomplete launch needs all of its sidecars. -/
def supervisor (plan : LaunchPlan) (pid : Nat) (r : Recovery) (n : Nat) : ShimProg Unit :=
  if r.fromStarting ∧ r.missing ≠ [] then
    fail ((FirestoneError.new .conflict
      ("starting recovery lost required sidecar(s): " ++ ", ".intercalate r.missing)).withHint
      "the incomplete launch will be stopped before retrying")
  else supervise plan pid r n

/-! ## The end -/

/-- The VMM that the last cleanup is about. -/
def World.retainedRecord (w : World) : Option ProcessRecord :=
  w.vmm.map OwnedVmm.record <|> w.recoveredVmm.map Proc.record <|> w.identity.vmm

/-- A recorded VMM is ended, or is found dead. -/
def endRecorded (record : ProcessRecord) : ShimProg Unit := do
  if ← recordedProcessAlive record then
    signalVerifiedTree record
    waitForRecordExit record
  else pure ()

/-- The VMM is ended, or is found dead. -/
def finalVmmCleanup : ShimProg (Option ExitStatus) := do
  match (← get).vmm, (← get).retainedRecord with
  | some v, _ => return some (← v.terminateAndReap true)
  | none, none => pure none
  | none, some record =>
    endRecorded record
    return none

/-- The VMM is left alive: its record is published again. -/
def retainVmm (retained : Option ProcessRecord) (primary : FirestoneError) : ShimProg Unit := do
  match retained with
  | some record =>
    setIdentity fun i => { i with vmm := some record }
    publishProcessIdentity
    writeRecoverableFailedState record primary
  | none => writeAmbiguousFailedState primary

/-- Sidecars are left alive: the identity is published again. -/
def retainSidecars (primary : FirestoneError) : ShimProg Unit := do
  forgetVmm
  publishProcessIdentity
  writeAmbiguousFailedState primary

/-- Nothing is left alive. -/
def retireMachine (status : Option ExitStatus) (primary : FirestoneError) : ShimProg Unit := do
  forgetVmm
  writeFinalState .failed status (.failure primary.message)
  let merged ← attempt mergeConsoleLog
  cleanupAfterShim
  ofExcept merged

/-- The last cleanup, once it is due. -/
def finalCleanup {α : Type} (primary : FirestoneError) : ShimProg α := do
  let retained := (← get).retainedRecord
  let vmmCleanup ← attempt finalVmmCleanup
  let sidecarCleanup ← attempt stopOwnedSidecars
  let recoveredSidecarCleanup ← attempt stopRecoveredSidecars
  match vmmCleanup, sidecarCleanup, recoveredSidecarCleanup with
  | .error cleanupError, _, _ =>
    retainVmm retained primary
    fail cleanupError
  | .ok _, .error cleanupError, _ =>
    retainSidecars primary
    fail cleanupError
  | .ok _, .ok _, .error cleanupError =>
    retainSidecars primary
    fail cleanupError
  | .ok status, .ok _, .ok _ =>
    retireMachine status primary
    fail primary

/-- `finalize_supervisor_result` of an error. A shim that has given up its state is done. -/
def finalizeSupervisorResult {α : Type} (pid : Nat) (primary : FirestoneError) : ShimProg α := do
  if (← get).state.shimPid = some pid then
    let _ ← call
    if (← get).runtime.isSome then finalCleanup primary else fail primary
  else fail primary

/-- The variables at the start of `run_shim`. The state is read before anything looks at it. -/
def World.enter (pid : Nat) (w : World) : World :=
  { w with
    state := w.stateFile, steps := [], identity := ⟨pid, none, []⟩, terminating := false, launched := false, vmm := none, sidecars := [],
    recoveredVmm := none, recoveredSidecars := [], recoveryApiPending := false, ownerReaped := none }

/-- A machine that is to be launched has nothing to adopt. -/
def prepareOrAdopt (plan : LaunchPlan) (pid : Nat) : ShimProg Recovery := do
  let st := (← get).state
  if st.status = .starting ∧ st.shimPid = some pid then pure {} else adopt plan pid

/-- `run_shim` before the loop. -/
def enterShim (plan : LaunchPlan) (pid : Nat) : ShimProg Recovery := do
  modify (World.enter pid)
  let _ ← call
  modify fun w => { w with runtime := w.runtime <|> some ⟨none⟩ }
  let _ ← call
  modify fun w => { w with state := w.stateFile }
  let _ ← call
  let r ← prepareOrAdopt plan pid
  let _ ← call
  publishProcessIdentity
  when (← get).recoveredVmm.isSome writeState
  let _ ← call
  modify fun w => { w with launched := w.recoveredVmm.isSome }
  return r

/-- `run_shim`, followed for `n` turns of its loop. The owners are dropped at its end. -/
def runShim (plan : LaunchPlan) (pid n : Nat) : ShimProg Unit := do
  let r ← enterShim plan pid
  let result ← attempt (onError (supervisor plan pid r n) (finalizeSupervisorResult pid))
  dropSidecars
  dropVmm
  ofExcept result

end Firestone.Shim
