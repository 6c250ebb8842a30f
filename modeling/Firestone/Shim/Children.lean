import Firestone.Shim.World

/-!
# The children of a shim

A shim owns its VMM and its sidecars as children, which it reaps, or it has recovered them from an earlier shim, and then
it watches them through a pidfd.

* `OwnedVmm.terminateAndReap`, `OwnedSidecar.terminateAndReap` — end one child. The drops of both owners try the same.
* `stopOwnedSidecars`, `stopRecoveredSidecars` — end all sidecars, or fail and keep what is left.
* `reconcileOwnedSidecarExits`, `reconcileRecoveredSidecarExits` — take note of sidecars that have exited on their own.
-/

namespace Firestone.Shim

open Firestone.Lib Prog

/-! ## The VMM -/

def World.setVmm (f : OwnedVmm → OwnedVmm) (w : World) : World := { w with vmm := w.vmm.map f }

/-- The owner of this VMM keeps the status of its child. -/
def World.markVmmReaped (child : Proc) (status : ExitStatus) (w : World) : World :=
  w.setVmm fun v => if v.child = child then { v with reapedStatus := some status } else v

/-- The owner of the VMM lets go of its child, which proves that it has been reaped. -/
def World.releaseVmm (pid : Nat) (w : World) : World :=
  { w.setVmm (fun v => { v with process := false }) with ownerReaped := some pid }

/-- `OwnedVmm::observe_exit`. -/
def OwnedVmm.observeExit (v : OwnedVmm) : ShimProg Bool :=
  if v.reapedStatus.isSome then pure true
  else if v.process then Shim.observeExit v.child
  else fail (.new .notRunning "VMM child was reaped")

def OwnedVmm.isFullyReaped (v : OwnedVmm) : Bool := !v.process && v.reapedStatus.isSome

/-- `SIGTERM` to the group and to the descendants, and then the grace period. -/
def OwnedVmm.sendTerm (v : OwnedVmm) : ShimProg Unit := do
  if ← Shim.observeExit v.child then pure ()
  else
    let _ ← call
    let a ← interact
    repeatUntil (Shim.observeExit v.child) a.polls

/-- The wait for a child that has exited. -/
def OwnedVmm.wait (v : OwnedVmm) : ShimProg Unit := do
  if ← Shim.observeExit v.child then
    let a ← call
    modify (World.markVmmReaped v.child a.status)
  else fail (.new .timeout ("VMM pid " ++ toString v.record.pid ++ " did not exit after SIGKILL"))

/-- `terminate_and_reap_before` as far as the child itself: after the wait nothing is signalled by number any more. -/
def OwnedVmm.killAndReap (v : OwnedVmm) (sendTerm : Bool) : ShimProg Unit := do
  let _ ← interact
  when sendTerm v.sendTerm
  let _ ← interact
  let _ ← Shim.observeExit v.child
  let _ ← call
  let a ← interact
  repeatUntil (Shim.observeExit v.child) a.polls
  v.wait

/-- The owner whose child has been reaped lets go of it. -/
def OwnedVmm.release (v : OwnedVmm) : ShimProg ExitStatus := do
  match (← get).vmm.bind OwnedVmm.reapedStatus with
  | none => fail (.new .generic "VMM exit status was not retained")
  | some status =>
    modify (World.releaseVmm v.record.pid)
    pure status

/-- `OwnedVmm::terminate_and_reap_before`: the console broker is shut down and adopted children are drained before the
owner lets go of the child. -/
def OwnedVmm.terminateAndReap (v : OwnedVmm) (sendTerm : Bool) : ShimProg ExitStatus := do
  if v.process then
    when v.reapedStatus.isNone (v.killAndReap sendTerm)
    let _ ← interact
    let _ ← call
    v.release
  else
    match v.reapedStatus with
    | some status => pure status
    | none => fail (.new .notRunning "VMM child was already released")

/-- `OwnedVmm::exit_error`. -/
def vmmExitError {α : Type} (context : String) : ShimProg α :=
  exitError context "inspect the cloud-hypervisor log and retry the machine start"

/-- `reap_exited_group`. -/
def OwnedVmm.reapExitedGroup (v : OwnedVmm) : ShimProg ExitStatus := v.terminateAndReap false

/-- `Drop for OwnedVmm`. -/
def dropVmm : ShimProg Unit := do
  match (← get).vmm with
  | some v =>
    when v.process do
      let _ ← attempt (v.terminateAndReap false)
    modify fun w => { w with vmm := none }
  | none => pure ()

/-! ## One sidecar -/

/-- `OwnedSidecar::observe_exit`. -/
def OwnedSidecar.observeExit (s : OwnedSidecar) : ShimProg Bool :=
  if s.reapedStatus.isSome then pure true
  else if s.process then Shim.observeExit s.child
  else fail (.new .notRunning ("sidecar " ++ s.name ++ " child was reaped"))

/-- The owner of this sidecar lets go of its child and keeps the status. -/
def World.markReaped (child : Proc) (status : ExitStatus) (w : World) : World :=
  { w with sidecars := w.sidecars.map fun s =>
      if s.child = child then { s with process := false, reapedStatus := some status } else s }

/-- `OwnedSidecar::reap`. -/
def OwnedSidecar.reap (s : OwnedSidecar) : ShimProg ExitStatus :=
  match s.reapedStatus with
  | some status => pure status
  | none =>
    if s.process then do
      let a ← call
      modify (World.markReaped s.child a.status)
      pure a.status
    else fail (.new .notRunning "sidecar child is absent")

/-- A sidecar that has exited is reaped, and one that has not is an error. -/
def OwnedSidecar.reapOr (s : OwnedSidecar) (e : FirestoneError) : ShimProg ExitStatus := do
  if ← s.observeExit then s.reap else fail e

/-- `OwnedSidecar::reap_exited`. -/
def OwnedSidecar.reapExited (s : OwnedSidecar) : ShimProg ExitStatus :=
  s.reapOr (.new .conflict ("sidecar " ++ s.name ++ " is still running"))

/-- A signal to the group, and then the grace period. -/
def OwnedSidecar.signal (s : OwnedSidecar) : ShimProg Unit := do
  let a ← call
  repeatUntil (Shim.observeExit s.child) a.polls

/-- `SIGTERM`, and `SIGKILL` to a sidecar that stays. -/
def OwnedSidecar.terminate (s : OwnedSidecar) : ShimProg Unit := do
  s.signal
  if ← Shim.observeExit s.child then pure () else s.signal

/-- `OwnedSidecar::terminate_and_reap`. -/
def OwnedSidecar.terminateAndReap (s : OwnedSidecar) : ShimProg ExitStatus := do
  if s.process then
    when (!(← s.observeExit)) s.terminate
    s.reapOr (.new .timeout ("sidecar " ++ s.name ++ " pid " ++ toString s.record.pid ++ " did not exit"))
  else
    match s.reapedStatus with
    | some status => pure status
    | none => fail (.new .notRunning ("sidecar " ++ s.name ++ " child was already released"))

/-- `Drop for OwnedSidecar`. -/
def OwnedSidecar.drop (s : OwnedSidecar) : ShimProg Unit :=
  when s.process do
    let _ ← attempt s.terminateAndReap

/-- The drop of a vector of sidecars. -/
def dropSidecars : ShimProg Unit := do
  (← get).sidecars.forM OwnedSidecar.drop
  modify fun w => { w with sidecars := [] }

/-- The record of a sidecar and its pid go. -/
def forgetSidecar (name : String) : ShimProg Unit := do
  setIdentity fun i => { i with sidecars := withoutKey name i.sidecars }
  setState fun st => { st with sidecarPids := withoutKey name st.sidecarPids }

/-- `OwnedSidecar::exit_error`. -/
def OwnedSidecar.exitError {α : Type} (s : OwnedSidecar) (context : String) : ShimProg α :=
  Shim.exitError context ("inspect the " ++ s.name ++ " process log and retry the machine start")

/-- `ensure_sidecar_alive`. -/
def ensureSidecarAlive (s : OwnedSidecar) : ShimProg Unit := do
  if ← s.observeExit then
    let _ ← s.reapExited
    s.exitError ("sidecar " ++ s.name ++ " exited before VMM launch")
  else pure ()

/-- `ensure_owned_sidecars_alive`. -/
def ensureOwnedSidecarsAlive : ShimProg Unit := do
  (← get).sidecars.forM ensureSidecarAlive

/-! ## All sidecars -/

/-- Whether no sidecar runs any more. All of them are looked at. -/
def noneRuns (sidecars : List OwnedSidecar) : ShimProg Bool :=
  sidecars.foldlM (fun quiet s => do return (← s.observeExit) && quiet) true

/-- The sidecars that still run are signalled. -/
def signalRunning (sidecars : List OwnedSidecar) : ShimProg Unit :=
  sidecars.forM fun s => do
    if ← s.observeExit then pure ()
    else
      let _ ← call

/-- A signal to all that still run, and then the grace period. -/
def signalAndWait (sidecars : List OwnedSidecar) : ShimProg Unit := do
  signalRunning sidecars
  let a ← interact
  repeatUntil (noneRuns sidecars) a.polls

/-- The first sidecar that is seen running. One that cannot be looked at is passed over. -/
def firstRunning : List OwnedSidecar → ShimProg (Option OwnedSidecar)
  | [] => pure none
  | s :: rest => do
    match ← attempt s.observeExit with
    | .ok false => pure (some s)
    | .ok true | .error _ => firstRunning rest

/-- The sidecars are popped, from the last one on. The first error of their artifacts is kept. -/
def popSidecars : List OwnedSidecar → Option FirestoneError → ShimProg (Option FirestoneError)
  | [], e => pure e
  | s :: rest, e => do
    modify fun w => { w with sidecars := w.sidecars.dropLast }
    let _ ← onError s.reapExited fun _ => s.drop
    let a ← interact
    forgetSidecar s.name
    popSidecars rest (e <|> a.error)

/-- The end of a stop of sidecars: the evidence without them, and then the first error of their artifacts. -/
def publishStopped (artifactError : Option FirestoneError) : ShimProg Unit := do
  publishProcessIdentity
  writeState
  match artifactError with
  | some e => fail e
  | none => pure ()

/-- `stop_owned_sidecars`: `SIGTERM`, and then `SIGKILL`. -/
def stopOwnedSidecars : ShimProg Unit := do
  let sidecars := (← get).sidecars
  signalAndWait sidecars
  signalAndWait sidecars
  match ← firstRunning sidecars with
  | some s =>
    fail (.new .timeout ("sidecar " ++ s.name ++ " pid " ++ toString s.child.pid ++ " did not exit after SIGKILL"))
  | none =>
    let artifactError ← popSidecars sidecars.reverse none
    publishStopped artifactError

def addDegraded (marker : String) (st : MachineState) : MachineState :=
  if marker ∈ st.degraded then st else { st with degraded := st.degraded ++ [marker] }

/-- `sidecar_exit_marker`. -/
def sidecarExitMarker (name : String) (status : ExitStatus) : String :=
  match status.code, status.signal with
  | some code, _ => name ++ " exited (code " ++ toString code ++ ")"
  | none, some signal => name ++ " exited (signal " ++ toString signal ++ ")"
  | none, none => name ++ " exited (unknown status)"

/-- A sidecar that has exited on its own is let go of, and degrades the machine. -/
def reconcileExited (s : OwnedSidecar) : ShimProg Unit := do
  modify fun w => { w with sidecars := w.sidecars.erase s }
  let status ← onError s.reapExited fun _ => s.drop
  let _ ← interact
  forgetSidecar s.name
  setState (addDegraded (sidecarExitMarker s.name status))
  publishProcessIdentity
  writeState

/-- `reconcile_owned_sidecar_exits`. -/
def reconcileOwnedSidecarExits (sidecars : List OwnedSidecar) : ShimProg Unit :=
  sidecars.forM fun s => do
    if ← s.observeExit then reconcileExited s else pure ()

/-! ## Recovered sidecars -/

def noneAlive (sidecars : List RecoveredProcess) : ShimProg Bool :=
  sidecars.foldlM (fun quiet s => do return !(← isAlive s.process) && quiet) true

def signalAlive (sidecars : List RecoveredProcess) : ShimProg Unit := do
  sidecars.forM fun s => do
    when (← isAlive s.process) (signalVerifiedTree s.process.record)
  let a ← interact
  repeatUntil (noneAlive sidecars) a.polls

/-- Every recovered sidecar has exited, or the first one that has not is an error. -/
def ensureExited (sidecars : List RecoveredProcess) : ShimProg Unit :=
  sidecars.forM fun s => do
    if ← isAlive s.process then
      fail (.new .timeout ("recovered sidecar " ++ s.label ++ " pid " ++ toString s.process.pid ++
        " did not exit after SIGKILL"))
    else pure ()

def popRecovered : List RecoveredProcess → Option FirestoneError → ShimProg (Option FirestoneError)
  | [], e => pure e
  | s :: rest, e => do
    modify fun w => { w with recoveredSidecars := w.recoveredSidecars.dropLast }
    let a ← interact
    forgetSidecar s.label
    popRecovered rest (e <|> a.error)

/-- `stop_recovered_sidecars`. -/
def stopRecoveredSidecars : ShimProg Unit := do
  let sidecars := (← get).recoveredSidecars
  signalAlive sidecars
  signalAlive sidecars
  ensureExited sidecars
  let artifactError ← popRecovered sidecars.reverse none
  publishStopped artifactError

/-- A recovered sidecar that has exited is let go of, and degrades the machine. -/
def reconcileRecoveredExited (s : RecoveredProcess) : ShimProg Unit := do
  modify fun w => { w with recoveredSidecars := w.recoveredSidecars.erase s }
  let _ ← interact
  forgetSidecar s.label
  setState (addDegraded (s.label ++ " exited (status unavailable)"))
  publishProcessIdentity
  writeState

/-- `reconcile_recovered_sidecar_exits`. -/
def reconcileRecoveredSidecarExits (sidecars : List RecoveredProcess) : ShimProg Unit :=
  sidecars.forM fun s => do
    if ← isAlive s.process then pure () else reconcileRecoveredExited s

end Firestone.Shim
