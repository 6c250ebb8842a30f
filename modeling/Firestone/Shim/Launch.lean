import Firestone.Shim.Children

/-!
# The launch of a machine

`launch_vmm` spawns the sidecars one after another, waits until each is ready, spawns Cloud Hypervisor, waits for its API
and then creates and boots the VM, or restores and resumes it. Whatever it still owns when it fails is dropped, and the
shim looks for what has survived.

* `spawnSidecar`, `launchSidecars`, `launchVmm` — the launch.
* `findLaunchSidecarSurvivors`, `findLaunchSurvivor`, `failedLaunch` — what a failed launch has left behind.
-/

namespace Firestone.Shim

open Firestone.Lib Prog

/-! ## Process records -/

/-- `process_record` of a child. -/
def processRecord (child : Proc) : ShimProg ProcessRecord := do
  let _ ← call
  if child ∈ (← get).alive then pure child.record
  else fail (.new .conflict ("recorded process id " ++ toString child.pid ++ " was reused or changed"))

/-- `launch_bound_sidecar_record`, for a sidecar whose executable cannot be read through `/proc`. -/
def launchBoundSidecarRecord (child : Proc) : ShimProg ProcessRecord := do
  let _ ← call
  return child.record

/-- One turn of `capture_sidecar_process_record`. -/
def sidecarRecordTurn (s : OwnedSidecar) (again : FirestoneError → ShimProg ProcessRecord) : ShimProg ProcessRecord := do
  match ← attempt (processRecord s.child) with
  | .ok record => pure record
  | .error e =>
    if ← s.observeExit then
      let _ ← s.reapExited
      s.exitError ("sidecar " ++ s.name ++ " exited before process identity capture")
    else
      let a ← interact
      if a.yes then launchBoundSidecarRecord s.child else again e

def captureSidecarProcessRecord (s : OwnedSidecar) : Nat → ShimProg ProcessRecord
  | 0 => sidecarRecordTurn s fail
  | n + 1 => sidecarRecordTurn s fun _ => captureSidecarProcessRecord s n

/-- One turn of `capture_launch_process_record`. -/
def vmmRecordTurn (plan : LaunchPlan) (v : OwnedVmm) (again : FirestoneError → ShimProg ProcessRecord) :
    ShimProg ProcessRecord := do
  match ← attempt (processRecord v.child) with
  | .ok record => pure record
  | .error e =>
    if ← v.observeExit then
      let _ ← v.reapExitedGroup
      vmmExitError ("cloud-hypervisor for machine `" ++ plan.name ++ "` exited before process identity capture")
    else again e

def captureLaunchProcessRecord (plan : LaunchPlan) (v : OwnedVmm) : Nat → ShimProg ProcessRecord
  | 0 => vmmRecordTurn plan v fail
  | n + 1 => vmmRecordTurn plan v fun _ => captureLaunchProcessRecord plan v n

/-! ## Sidecars -/

/-- A new sidecar runs, and its owner stands among the sidecars of the launch. -/
def World.spawnSidecar (s : OwnedSidecar) (w : World) : World :=
  { w with
    alive := s.child :: w.alive, sidecars := w.sidecars ++ [s], steps := w.steps ++ [.spawned (.sidecar s.name)] }

/-- The owner of a sidecar whose spawn failed later on is dropped. -/
def dropSpawned (name : String) : ShimProg Unit := do
  match (← get).sidecars.find? fun s => s.name = name with
  | some s =>
    s.drop
    modify fun w => { w with sidecars := w.sidecars.filter fun s => s.name ≠ name }
  | none => pure ()

def World.bindSidecar (name : String) (record : ProcessRecord) (w : World) : World :=
  { w with sidecars := w.sidecars.map fun s => if s.name = name then { s with record := record } else s }

/-- What `spawn_sidecar` does after the spawn: the pid and then the record are written down. -/
def recordSidecar (s : OwnedSidecar) : ShimProg Unit := do
  setState fun st => { st with sidecarPids := withKey s.name s.child.pid st.sidecarPids }
  writeState
  let a ← interact
  let record ← captureSidecarProcessRecord s a.polls
  modify (World.bindSidecar s.name record)
  setIdentity fun i => { i with sidecars := withKey s.name record i.sidecars }
  publishProcessIdentity

/-- `spawn_sidecar`. -/
def spawnSidecar (name : String) : ShimProg OwnedSidecar := do
  ensureLaunchBeforeDeadline "validating sidecar executable"
  let _ ← call
  let _ ← call
  let _ ← call
  ensureLaunchBeforeDeadline "spawning sidecar"
  let a ← call
  let child : Proc := ⟨.sidecar name, a.child.1, a.child.2⟩
  let s : OwnedSidecar := ⟨name, child, true, child.unbound, none⟩
  modify (World.spawnSidecar s)
  onError (recordSidecar s) fun _ => dropSpawned name
  return s

/-- `wait_ready_while` of passt: its deadline comes before a look at the socket. -/
def waitPasstReady (socket : String) (s : OwnedSidecar) : Nat → ShimProg Unit
  | 0 => do
    waitTurn
    fail ((FirestoneError.new .timeout ("passt socket '" ++ socket ++ "' was not ready before its deadline")).withHint
      "inspect the mode-0600 passt log for the startup failure")
  | n + 1 => do
    waitTurn
    if (← call).yes then pure () else waitPasstReady socket s n
where
  waitTurn : ShimProg Unit := do
    if (← get).terminating then
      fail ((FirestoneError.new .interrupted ("cancelled while waiting for passt socket '" ++ socket ++ "'")).withHint
        "the launch must stop passt and roll back before starting the VMM")
    else ensureSidecarAlive s

/-- `wait_ready_while` of virtiofsd: a look at the socket comes before its deadline. -/
def waitVirtiofsReady (fs : VirtiofsPlan) (s : OwnedSidecar) : Nat → ShimProg Unit
  | 0 => do
    if ← waitTurn then pure ()
    else
      fail ((FirestoneError.new .timeout ("virtiofsd for mount `" ++ fs.tag ++ "` did not publish socket '" ++ fs.socket ++
        "' before the deadline")).withHint ("inspect " ++ fs.log ++ " for the virtiofsd error"))
  | n + 1 => do
    if ← waitTurn then pure () else waitVirtiofsReady fs s n
where
  waitTurn : ShimProg Bool := do
    if (← get).terminating then
      fail ((FirestoneError.new .interrupted ("virtiofsd readiness for mount `" ++ fs.tag ++ "` was cancelled")).withHint
        "stop the partially launched sidecars before retrying")
    else
      ensureSidecarAlive s
      return (← call).yes

/-- `passt_step_detail`. -/
def passtStepDetail (forwards : List String) : String :=
  if forwards = [] then "passt" else "passt · " ++ ", ".intercalate forwards

/-- The network part of `launch_sidecars`. -/
def launchNetwork : NetworkPlan → ShimProg Unit
  | .none => emit (.stepSkip "net" "network.mode is none")
  | .tap name => emit (.stepSkip "net" ("tap " ++ name ++ " uses no sidecar"))
  | .passt socket forwards => do
    emit (.stepStart "net" "start passt")
    let s ← spawnSidecar "passt"
    let a ← interact
    waitPasstReady socket s a.polls
    note (.ready s.name)
    emit (.stepDone "net" (some (passtStepDetail forwards)))

def launchFilesystem (fs : VirtiofsPlan) : ShimProg Unit := do
  emit (.stepStart "fs" ("start virtiofsd " ++ fs.tag))
  let s ← spawnSidecar fs.sidecar
  let a ← interact
  waitVirtiofsReady fs s a.polls
  note (.ready s.name)
  emit (.stepDone "fs" (some (fs.host ++ " -> " ++ fs.guest ++ if fs.readonly then " · read-only" else "")))

/-- `launch_sidecars`. After a failure it stops the sidecars, and drops those that it could not stop. -/
def launchSidecars (plan : LaunchPlan) : ShimProg Unit :=
  onError (do
    launchNetwork plan.network
    if plan.filesystems = [] then emit (.stepSkip "fs" "no mounts")
    else plan.filesystems.forM launchFilesystem) fun _ => do
      let _ ← attempt stopOwnedSidecars
      dropSidecars

/-! ## The VMM -/

/-- `terminate_launch_vmm`. -/
def terminateLaunchVmm : ShimProg Unit := do
  match (← get).vmm with
  | some v =>
    let _ ← v.terminateAndReap true
  | none => pure ()

/-- `ensure_owned_sidecars_alive` once the VMM runs. -/
def sidecarsAliveOrTerminate : ShimProg Unit := onError ensureOwnedSidecarsAlive fun _ => terminateLaunchVmm

/-- `launch_phase_timeout`. -/
def launchPhaseTimeout (phase : String) : ShimProg Unit := ensureLaunchBeforeDeadline phase

/-- The VMM runs. From here on nothing proves that it has been reaped. -/
def World.spawnVmm (child : Proc) (w : World) : World :=
  { w with
    alive := child :: w.alive, vmm := some ⟨child, true, child.unbound, none⟩, ownerReaped := none,
    steps := w.steps ++ [.spawned .vmm] }

/-- The record of the VMM is bound to its owner and published. -/
def bindVmmRecord (record : ProcessRecord) : ShimProg Unit := do
  modify (World.setVmm fun v => { v with record := record })
  setIdentity fun i => { i with vmm := some record }
  publishProcessIdentity

/-- The spawn of Cloud Hypervisor, up to its record in `identity.json`. -/
def spawnVmm (plan : LaunchPlan) : ShimProg Proc := do
  emit (.stepStart "vmm" "start cloud-hypervisor")
  ensureLaunchBeforeDeadline "validating VMM executable"
  let _ ← call
  let _ ← call
  when plan.restoreSnapshot.isSome do
    let _ ← call
  let _ ← call
  ensureLaunchBeforeDeadline "spawning cloud-hypervisor"
  let _ ← call
  let a ← call
  let child : Proc := ⟨.vmm, a.child.1, a.child.2⟩
  modify (World.spawnVmm child)
  setState fun st => { st with vmmPid := some child.pid }
  writeState
  let a ← interact
  let record ← captureLaunchProcessRecord plan ⟨child, true, child.unbound, none⟩ a.polls
  bindVmmRecord record
  return child

/-- The checks of one turn of the wait for the API, and then what comes after them. -/
def pingTurn {α : Type} (plan : LaunchPlan) (next : ShimProg α) : ShimProg α := do
  sidecarsAliveOrTerminate
  if (← get).terminating then
    terminateLaunchVmm
    fail (.new .interrupted ("machine `" ++ plan.name ++ "` launch interrupted by signal"))
  else
    match (← get).vmm with
    | none => fail (.new .notRunning "VMM child was reaped")
    | some v =>
      if ← v.observeExit then
        let _ ← v.reapExitedGroup
        vmmExitError ("cloud-hypervisor for machine `" ++ plan.name ++ "` exited before API readiness")
      else next

/-- The wait for the API: the pid that answers and the version. -/
def awaitPing (plan : LaunchPlan) : Nat → ShimProg Answer
  | 0 => pingTurn plan do
    terminateLaunchVmm
    fail ((FirestoneError.new .timeout ("cloud-hypervisor API for machine `" ++ plan.name ++
      "` was not ready within the launch deadline")).withHint ("inspect " ++ plan.vmmLog))
  | n + 1 => pingTurn plan do
    match ← attempt call with
    | .ok a => pure a
    | .error e =>
      if e.kind = .notRunning ∨ e.kind = .timeout then awaitPing plan n
      else
        terminateLaunchVmm
        fail e

/-- The VMM is asked to end, if there is time for it. -/
def askToEnd (phase : String) : ShimProg Unit := do
  match ← attempt (launchPhaseTimeout ("failed " ++ phase ++ " cleanup")) with
  | .ok _ =>
    let _ ← interact
  | .error _ => pure ()

/-- A request that starts the guest. After a failure the VMM is asked to end before it is terminated. -/
def startGuest (phase : String) (step : LaunchStep) : ShimProg Unit := do
  launchPhaseTimeout phase
  note step
  onError (do let _ ← call) fun _ => do
    askToEnd phase
    terminateLaunchVmm

/-- A request that makes the VM, from the snapshot or from the published config. -/
def makeVm (phase : String) (step : LaunchStep) : ShimProg Unit := do
  launchPhaseTimeout phase
  note step
  onError (do let _ ← call) fun _ => terminateLaunchVmm
  let _ ← call
  sidecarsAliveOrTerminate

/-- The VMM that answers is the one that was spawned. Its record is taken again. -/
def confirmVmm (child : Proc) (ping : Answer) : ShimProg Unit := do
  if ping.pid = child.pid then
    note .answered
    let record ← processRecord child
    bindVmmRecord record
  else
    terminateLaunchVmm
    fail (.new .conflict ("VMM API pid " ++ toString ping.pid ++ " does not match spawned cloud-hypervisor pid " ++
      toString child.pid))

/-- The VM is made and its guest started. A restore removes its marker at the end. -/
def bootVm (plan : LaunchPlan) : ShimProg Unit := do
  if plan.restoreSnapshot.isSome then
    makeVm "vm.restore" .vmRestore
    startGuest "vm.resume" .vmResume
    let _ ← call
  else
    makeVm "vm.create" .vmCreate
    startGuest "vm.boot" .vmBoot

/-- The console broker is started on the PTY that the VMM reports. -/
def startConsole : ShimProg Unit :=
  onError (do
    launchPhaseTimeout "vm.info console"
    let _ ← call
    let _ ← call) fun _ => terminateLaunchVmm

/-- The end of `launch_vmm`: the machine is running. -/
def publishRunning (version : String) : ShimProg Unit := do
  ensureLaunchBeforeDeadline "publishing running state"
  setState fun st => { st with status := .running }
  writeState
  emit (.stepDone "vmm" (some ("cloud-hypervisor " ++ version)))
  sidecarsAliveOrTerminate
  modify fun w => { w with ownerReaped := none }

/-- `launch_vmm` after `launch_sidecars`. -/
def launchWithSidecars (plan : LaunchPlan) : ShimProg Unit := do
  ensureOwnedSidecarsAlive
  let child ← spawnVmm plan
  let a ← interact
  let ping ← awaitPing plan a.polls
  confirmVmm child ping
  sidecarsAliveOrTerminate
  bootVm plan
  startConsole
  publishRunning ping.text

/-- `launch_vmm`. On a failure the VMM is dropped before the sidecars. -/
def launchVmm (plan : LaunchPlan) : ShimProg Unit := do
  launchSidecars plan
  onError (launchWithSidecars plan) fun _ => do
    dropVmm
    dropSidecars

/-! ## Survivors -/

/-- `scan_linux_vmm_candidates` and `scan_linux_sidecar_candidates`: the live processes of a role, as far as the scan sees
them. -/
def scanProcesses (role : Role) : ShimProg (List ProcessRecord) := do
  let a ← call
  return ((← get).alive.filter fun p => p.role = role ∧ p ∉ a.hidden).map Proc.record

/-- Takes note of a live sidecar that is not among the candidates. -/
def noteMissed (name : String) (candidates : List ProcessRecord) : ShimProg Unit :=
  modify fun w => { w with
    missed := w.missed || w.alive.any fun p => p.role = .sidecar name && p.record ∉ candidates }

/-- The recorded sidecar, if it is alive. It has to be the one of the plan. -/
def knownSidecar (name : String) (recorded : Option ProcessRecord) (mismatch : String) : ShimProg (List ProcessRecord) := do
  match recorded with
  | some record =>
    if ← recordedProcessAlive record then
      if record.role = .sidecar name then
        verifyProcess record
        pure [record]
      else fail (.new .conflict mismatch)
    else pure []
  | none => pure []

/-- The processes that can be this sidecar: the recorded one and what a scan finds. -/
def sidecarCandidates (name : String) (recorded : Option ProcessRecord) (mismatch : String) :
    ShimProg (List ProcessRecord) := do
  let known ← knownSidecar name recorded mismatch
  let scanned ← scanProcesses (.sidecar name)
  let candidates := known ++ scanned.filter fun r => known.all fun c => c.pid ≠ r.pid
  noteMissed name candidates
  return candidates

/-- `find_launch_sidecar_survivors`. -/
def findLaunchSidecarSurvivors : List String → ShimProg (List (String × ProcessRecord))
  | [] => pure []
  | name :: rest => do
    let recorded := (← get).identity.sidecars.lookup name
    match ← sidecarCandidates name recorded ("launched " ++ name ++ " identity does not match its exact plan") with
    | [] => findLaunchSidecarSurvivors rest
    | [record] => return (name, record) :: (← findLaunchSidecarSurvivors rest)
    | candidates =>
      fail (.new .conflict
        ("launch cleanup found " ++ toString candidates.length ++ " matching " ++ name ++ " processes"))

/-- `take_owner_reap_proof`. -/
def takeOwnerReapProof (pid : Nat) : ShimProg Bool := do
  if (← get).ownerReaped = some pid then
    modify fun w => { w with ownerReaped := none }
    pure true
  else pure false

/-- The VMM of a failed launch that its record shows, if it is alive. -/
def recordedSurvivor : ShimProg (Option ProcessRecord) := do
  match (← get).identity.vmm with
  | some record =>
    if ← recordedProcessAlive record then
      verifyProcess record
      pure (some record)
    else pure none
  | none => pure none

/-- Whether the recorded VMM pid is proved to have been reaped by its owner. -/
def ownerReapProved : ShimProg Bool := do
  match (← get).state.vmmPid with
  | some pid => takeOwnerReapProof pid
  | none => pure false

/-- The VMM of a failed launch that a scan finds. -/
def scannedSurvivor : ShimProg (Option ProcessRecord) := do
  match ← scanProcesses .vmm, (← get).state.vmmPid with
  | [], none => pure none
  | [], some _ => fail (.new .conflict "launch cleanup could not prove the spawned VMM was reaped")
  | [record], _ => pure (some record)
  | records, _ => fail (.new .conflict ("launch cleanup found " ++ toString records.length ++ " matching VMM processes"))

/-- `find_launch_survivor`. -/
def findLaunchSurvivor : ShimProg (Option ProcessRecord) := do
  if ← ownerReapProved then pure none
  else
    match ← recordedSurvivor with
    | some record => pure (some record)
    | none => scannedSurvivor

/-- The live sidecars of a failed launch are written down. -/
def keepSidecarSurvivors (survivors : List (String × ProcessRecord)) (e : FirestoneError) : ShimProg Unit := do
  setIdentity fun i => { i with sidecars := survivors }
  setState fun st => { st with sidecarPids := survivors.map fun x => (x.1, x.2.pid) }
  onError publishProcessIdentity fun _ => modify fun w => { w with unpublished := true }
  writeAmbiguousFailedState e

/-- The live VMM of a failed launch is written down. -/
def keepVmmSurvivor (record : ProcessRecord) (e : FirestoneError) : ShimProg Unit := do
  setIdentity fun i => { i with vmm := some record }
  publishProcessIdentity
  writeRecoverableFailedState record e

/-- The end of a run whose processes are gone: the final state, the console log, the runtime directory. -/
def finish (status : MachineStatus) (processStatus : Option ExitStatus) (reason : ExitReason) : ShimProg Unit := do
  writeFinalState status processStatus reason
  mergeConsoleLog
  cleanupAfterShim

/-- A failed launch that has left no sidecar. -/
def settleVmm (e : FirestoneError) : ShimProg Unit := do
  match ← attempt findLaunchSurvivor with
  | .ok (some record) => keepVmmSurvivor record e
  | .ok none =>
    let reason ← safeVmmFailureReason e.message
    finish .failed none (.failure reason)
  | .error _ => writeAmbiguousFailedState e

/-- What a failed launch has left behind is written down, or is found to be nothing. -/
def settleLaunch (plan : LaunchPlan) (e : FirestoneError) : ShimProg Unit := do
  match ← attempt (findLaunchSidecarSurvivors plan.sidecars) with
  | .error _ => writeAmbiguousFailedState e
  | .ok (first :: rest) => keepSidecarSurvivors (first :: rest) e
  | .ok [] => settleVmm e

/-- What `run_shim` does about a launch that failed with `e`. -/
def failedLaunch {α : Type} (plan : LaunchPlan) (e : FirestoneError) : ShimProg α := do
  settleLaunch plan e
  emit (.error e)
  fail e

end Firestone.Shim
