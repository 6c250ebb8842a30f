import Firestone.Lib.FileLocks
import Firestone.Machine.Restore
import Firestone.Machine.Runtime

/-!
# System prune among other operations

`system_prune` looks at everything before it deletes anything, without a lock, and then deletes the planned targets one
after the other. A snapshot directory is deleted under the snapshot lock and the runtime directory of a listed machine
under the machine lock, with a second look at its status. A `.partial` entry of a machine directory, and the runtime
directory of a name that had no machine, are deleted under no lock.

One machine name is modelled, with one prune and any number of other processes. An operation is a program of
file-system steps in the order of the source; a process takes one step at a time and may fail or die before any of them.

* `Op.program`, `PruneTarget.program` — the operations and what prune does for each target.
* `step` — one step of one party.
* `KeepsWork` — what a step of prune must leave: the work files in progress and the runtime directory of an active
  machine.
* `AsIfLocked` — a step that deletes without a lock is taken only when the lock it lacks is free.

The image tiers work on other files. The degraded marker that a failed resume leaves, and a shim that adopts a VMM
without one, are not modelled.
-/

namespace Firestone.Machine.PruneRuns

open Firestone.Lib
open Machine.Restore (SnapshotKind)
open Machine.Runtime (withoutPids startingState restoredState)

/-! ## The files of one machine -/

/-- `lock` and `snapshots/.lock` of the machine directory. -/
inductive LockFile
  | machine | snapshots
  deriving DecidableEq, Repr

/-- Entries of the machine directory that prune looks for: `console.log.previous` and names that end in `.partial`. -/
inductive Entry
  | previousLog
  | unfinished (stem : String) (directory : Bool)
  deriving DecidableEq, Repr

/-- Entries of `snapshots/` that prune looks for: `.partial-<snapshot>` and `.removing-<snapshot>`. -/
inductive SnapshotEntry
  | working (snapshot : String)
  | removing (snapshot : String)
  deriving DecidableEq, Repr

inductive Artefact
  | entry (e : Entry)
  | snapshot (e : SnapshotEntry)
  deriving DecidableEq, Repr

/-- `disk.qcow2.partial`. -/
def diskPartial : Artefact := .entry (.unfinished "disk.qcow2" false)

/-- The lock under which the operations of the machine create and publish it. -/
def Artefact.guard : Artefact → LockFile
  | .entry _ => .machine
  | .snapshot _ => .snapshots

/-- The machine directory without its lock files. -/
structure MachineDir where
  creating : Bool
  spec : Bool
  state : Option MachineState
  disk : Bool
  /-- `snapshots/` is there. -/
  snapshots : Bool
  entries : List Artefact
  deriving DecidableEq, Repr

def MachineDir.empty : MachineDir := ⟨false, false, none, false, false, []⟩

/-- `machine_publication_complete` of a directory whose spec and state can be read. -/
def MachineDir.publicationComplete (d : MachineDir) : Bool := d.spec && d.state.isSome

/-- `machine_files_ready`. -/
def MachineDir.filesReady (d : MachineDir) : Bool := !d.creating && d.spec && d.state.isSome

/-- `machine_has_non_lock_entries`. -/
def MachineDir.hasNonLockEntries (d : MachineDir) : Bool :=
  d.creating || d.spec || d.state.isSome || d.disk || d.snapshots || !d.entries.isEmpty

def MachineDir.remove (d : MachineDir) (a : Artefact) : MachineDir := { d with entries := d.entries.filter (· ≠ a) }

def MachineDir.add (d : MachineDir) (a : Artefact) : MachineDir := { d with entries := d.entries.insert a }

/-- `clear_incomplete_machine`: everything but `lock` and `.creating`. -/
def MachineDir.cleared (d : MachineDir) : MachineDir := { MachineDir.empty with creating := d.creating }

/-! ## Programs -/

/-- `snapshot_kind_for`. -/
def snapshotKindFor : MachineStatus → Option SnapshotKind
  | .created | .stopped => some .cold
  | .running => some .warm
  | .starting | .stopping | .failed => none

/-- Who reads the live state, and which status it goes on with. -/
inductive Reader
  | report | refuseActive | clonable
  | snapshot (kind : SnapshotKind)
  | pruneStatus | skipActive
  deriving DecidableEq, Repr

def Reader.accepts : Reader → MachineStatus → Bool
  | .refuseActive, status => !status.isActive
  | .clonable, status => status == .created || status == .stopped
  | .snapshot kind, status => snapshotKindFor status == some kind
  | .report, _ | .pruneStatus, _ | .skipActive, _ => true

/-- One file-system step of an operation. -/
inductive Instr
  | ensureDir
  /-- `ensure_machine_exists`. -/
  | ensureExists
  | ensureSnapshots
  | openLock (l : LockFile)
  | lock (l : LockFile)
  | unlock (l : LockFile)
  /-- `read_live_state`, which takes the machine lock only to rewrite a stale state. -/
  | readLive (r : Reader)
  /-- `read_live_state_locked`. -/
  | readLocked (r : Reader)
  /-- `prepare_machine_creation` after its lock. -/
  | beginCreation
  | writeSpec
  | writeState (state : MachineState)
  | finishCreation
  /-- `symlink_metadata` of the disk finds it, or finds none. -/
  | expectDisk (found : Bool)
  | removeDisk
  /-- `remove_candidate`, `remove_stale_partial` or `clear_snapshot_directory`. -/
  | discard (a : Artefact)
  | build (a : Artefact)
  /-- The rename or link that publishes a work file. -/
  | publish (a : Artefact)
  | writeRestored
  /-- `ensure_machine_runtime_dir` and `clear_machine_runtime_dir` of `prepare_start`. -/
  | prepareRuntime
  | ensureRuntime
  | writeStarting
  /-- The shim is spawned and its pid is written. -/
  | spawnShim
  /-- The shim finds itself in the state. -/
  | adopt
  | writeStatus (status : MachineStatus)
  | writeFinal (status : MachineStatus)
  | clearRuntime
  /-- `machine_names`, and the status of the machine if it is listed. -/
  | listMachine
  | scanRuntime
  | scanDir
  | scanSnapshots
  | scanRemoval
  | executePlan
  /-- The machines tier. -/
  | removeMachine
  | deletePlanned (a : Artefact)
  /-- `clear_machine_runtime_dir` where the status read before under the lock was inactive. -/
  | clearInactive
  /-- `clear_machine_runtime_dir` of a name that had no machine. -/
  | clearUnpublished
  | clearRemoval
  /-- `validate_owned_data_file` of the lock file. -/
  | expectLock
  | renameDir
  | sweepRemoval
  deriving DecidableEq, Repr

/-- A target of the plan. -/
inductive PruneTarget
  | runtimeDir (published : Bool)
  | file (e : Entry)
  | tree (e : Entry)
  | snapshotTree (e : SnapshotEntry)
  | machineRemovalDir
  deriving DecidableEq, Repr

/-- `apply_prune_item`. -/
def PruneTarget.program : PruneTarget → List Instr
  | .runtimeDir true => [.openLock .machine, .lock .machine, .readLocked .skipActive, .clearInactive, .unlock .machine]
  | .runtimeDir false => [.clearUnpublished]
  | .file e | .tree e => [.deletePlanned (.entry e)]
  | .snapshotTree e => [.openLock .snapshots, .lock .snapshots, .deletePlanned (.snapshot e), .unlock .snapshots]
  | .machineRemovalDir => [.clearRemoval]

/-- What prune has found, in the order in which it deletes. -/
structure PrunePlan where
  runtime : List PruneTarget
  files : List PruneTarget
  removals : List PruneTarget
  snapshots : List PruneTarget
  deriving DecidableEq, Repr

def PrunePlan.empty : PrunePlan := ⟨[], [], [], []⟩

def PrunePlan.items (p : PrunePlan) : List PruneTarget := p.runtime ++ p.files ++ p.removals ++ p.snapshots

inductive Op
  | inspect
  | create (state : MachineState)
  /-- A clone as its destination sees it. -/
  | clone (state : MachineState) (disk : Bool)
  | cloneSource
  | start (firstStart : Bool)
  /-- The launch client gives up on its shim. -/
  | abandon
  | shim
  /-- With `force` a running machine is stopped first. -/
  | restore (disk starts force : Bool)
  | snapshotCreate (kind : SnapshotKind) (snapshot : String)
  | snapshotRemove (snapshot : String)
  | prune (machines : Bool)
  deriving DecidableEq, Repr

/-- A work file from its first byte to its publication. -/
def buildProgram (a : Artefact) : List Instr := [.discard a, .build a, .publish a]

def startProgram (firstStart : Bool) : List Instr :=
  [.ensureExists, .readLive .refuseActive, .openLock .machine, .lock .machine, .ensureExists,
    .readLocked .refuseActive, .expectDisk !firstStart] ++
  (if firstStart then buildProgram diskPartial else []) ++
  [.prepareRuntime, .writeStarting, .spawnShim, .unlock .machine]

def removeOneProgram : List Instr :=
  [.expectLock, .openLock .machine, .lock .machine, .ensureExists, .readLocked .refuseActive, .clearInactive,
    .sweepRemoval, .renameDir, .unlock .machine, .sweepRemoval]

/-- The steps of each operation, in the order of the source. -/
def Op.program : Op → List Instr
  | .inspect => [.readLive .report]
  | .create state =>
    [.ensureDir, .openLock .machine, .lock .machine, .beginCreation, .writeSpec, .writeState state, .finishCreation,
      .unlock .machine]
  | .clone state disk =>
    [.ensureDir, .openLock .machine, .lock .machine, .beginCreation, .writeSpec, .writeState state] ++
    (if disk then .expectDisk false :: buildProgram diskPartial else []) ++ [.finishCreation, .unlock .machine]
  | .cloneSource =>
    [.ensureExists, .readLive .clonable, .openLock .machine, .lock .machine, .ensureExists, .readLocked .clonable,
      .unlock .machine]
  | .start firstStart => startProgram firstStart
  | .abandon => [.openLock .machine, .lock .machine, .writeFinal .failed, .clearRuntime, .unlock .machine]
  | .shim =>
    [.ensureRuntime, .openLock .machine, .lock .machine, .adopt, .writeStatus .running, .writeStatus .stopping,
      .writeFinal .stopped, .clearRuntime, .unlock .machine]
  | .restore disk starts force =>
    [.ensureExists, .ensureSnapshots, .openLock .snapshots, .lock .snapshots,
      .readLive (if force then .report else .refuseActive),
      .openLock .machine, .lock .machine, .ensureExists, .readLocked .refuseActive] ++
    (if disk then buildProgram diskPartial else [.removeDisk]) ++
    [.writeSpec, .writeRestored, .unlock .machine, .unlock .snapshots] ++
    (if starts then startProgram !disk else [])
  | .snapshotCreate .cold snapshot =>
    [.ensureExists, .ensureSnapshots, .openLock .snapshots, .lock .snapshots, .readLive (.snapshot .cold),
      .openLock .machine, .lock .machine, .ensureExists, .readLocked (.snapshot .cold)] ++
    buildProgram (.snapshot (.working snapshot)) ++ [.unlock .machine, .unlock .snapshots]
  | .snapshotCreate .warm snapshot =>
    [.ensureExists, .ensureSnapshots, .openLock .snapshots, .lock .snapshots, .readLive (.snapshot .warm)] ++
    buildProgram (.snapshot (.working snapshot)) ++ [.unlock .snapshots]
  | .snapshotRemove snapshot =>
    [.ensureExists, .ensureSnapshots, .openLock .snapshots, .lock .snapshots,
      .discard (.snapshot (.removing snapshot)), .build (.snapshot (.removing snapshot)),
      .discard (.snapshot (.removing snapshot)), .unlock .snapshots]
  | .prune machines =>
    [.listMachine, .scanRuntime, .scanDir, .scanSnapshots, .scanRemoval, .executePlan] ++
    (if machines then [.removeMachine] else [])

/-! ## Parties and states -/

inductive Party
  | prune
  | process (n : Nat)
  deriving DecidableEq, Repr

/-- One party. Prune has no work files and launches nothing. -/
structure Proc where
  op : Option Op
  code : List Instr
  /-- The work files it has made and not yet published. -/
  building : List Artefact
  /-- It holds the machine lock and has read an inactive status under it. -/
  checked : Bool
  /-- It has made the runtime directory of a launch, or runs as the shim of one. -/
  launching : Bool
  /-- The status a failed launch leaves. -/
  previous : MachineStatus
  deriving DecidableEq, Repr

def Proc.idle : Proc := ⟨none, [], [], false, false, .created⟩

def Proc.starting (op : Op) : Proc := { Proc.idle with op := some op, code := op.program }

structure Sys where
  dir : Option MachineDir
  /-- `.removing-<name>` is there. -/
  removal : Bool
  /-- The runtime directory of the name is there. -/
  runtime : Bool
  locks : FileLocks Party LockFile
  proc : Party → Proc
  /-- Prune has begun. -/
  pruned : Bool
  /-- The status prune has read, if it has listed the machine. -/
  status : Option MachineStatus
  plan : PrunePlan

/-- What the environment answers in one step: whether the VMM answers, a free process id, the time, and how the VMM
ended. -/
structure Choice where
  ping : Bool
  pid : Nat
  now : String
  exit : LastExit
  deriving DecidableEq, Repr

/-- `state.json`. -/
def Sys.recorded (s : Sys) : Option MachineState := s.dir.bind MachineDir.state

def Sys.has (s : Sys) (a : Artefact) : Bool := s.dir.any fun d => d.entries.contains a

def Sys.edit (s : Sys) (p : Party) (f : Proc → Proc) : Sys := { s with proc := Function.update s.proc p (f (s.proc p)) }

/-- The party goes on with `code`. -/
def Sys.next (s : Sys) (p : Party) (code : List Instr) : Sys := s.edit p fun P => { P with code := code }

/-- The operation returns or its process ends: its files are closed. -/
def Sys.quit (s : Sys) (p : Party) : Sys :=
  { s with locks := s.locks.closeAll p, proc := Function.update s.proc p Proc.idle }

/-- A party begins an operation. -/
def Sys.begin (s : Sys) (p : Party) (op : Op) : Sys :=
  { s with proc := Function.update s.proc p (.starting op), pruned := s.pruned || p == .prune }

def Sys.setDir (s : Sys) (d : MachineDir) : Sys := { s with dir := some d }

/-- A step that needs the machine directory; without it the operation returns an error. -/
def Sys.withDir (s : Sys) (p : Party) (f : MachineDir → Sys) : Sys :=
  match s.dir with
  | none => s.quit p
  | some d => f d

/-- A step that needs `state.json`. -/
def Sys.withState (s : Sys) (p : Party) (f : MachineDir → MachineState → Sys) : Sys :=
  s.withDir p fun d =>
    match d.state with
    | none => s.quit p
    | some st => f d st

/-- A state write. -/
def Sys.writeState (s : Sys) (d : MachineDir) (st : MachineState) : Sys := s.setDir { d with state := some st }

/-! ## Reading the live state -/

/-- `verify_shim_identity`: the recorded pid is that of a live shim. -/
def Sys.shimVerified (s : Sys) (st : MachineState) : Bool :=
  st.shimPid.any fun n => (s.proc (.process n)).op == some .shim && !(s.proc (.process n)).code.isEmpty

/-- `observe_liveness`: without a runtime directory the VMM is not asked. -/
def Sys.observe (s : Sys) (c : Choice) (st : MachineState) : LivenessObservation :=
  ⟨s.runtime && c.ping, s.shimVerified st, s.runtime⟩

/-- A reader goes on with the status it was given, or returns an error. -/
def decide (s : Sys) (p : Party) (rest : List Instr) (r : Reader) (status : MachineStatus) (locked : Bool) : Sys :=
  if r.accepts status then
    { s with status := if r = Reader.pruneStatus then some status else s.status }.edit p fun P =>
      { P with code := rest, checked := locked && !status.isActive }
  else s.quit p

/-- The unlocked read. A stale state is read again, and rewritten, under the machine lock. -/
def readLive (s : Sys) (p : Party) (c : Choice) (rest : List Instr) (r : Reader) : Sys :=
  s.withState p fun _ st =>
    if (reconcile st.status (s.observe c st)).rewrite.isNone then
      decide s p rest r (reconcile st.status (s.observe c st)).status false
    else s.next p (.openLock .machine :: .lock .machine :: .readLocked r :: .unlock .machine :: rest)

/-- The state file after a locked read. -/
def rewritten (s : Sys) (c : Choice) (st : MachineState) : MachineState :=
  (reconciledState st (reconcile st.status (s.observe c st)) c.now).getD st

def readLocked (s : Sys) (p : Party) (c : Choice) (rest : List Instr) (r : Reader) : Sys :=
  s.withState p fun d st =>
    decide (s.writeState d (rewritten s c st)) p rest r (reconcile st.status (s.observe c st)).status true

/-! ## Planning -/

/-- `plan_stale_runtime_dirs` for this name. -/
def runtimeTargets (s : Sys) : List PruneTarget :=
  if s.runtime then
    match s.status with
    | some status => if status.isActive then [] else [.runtimeDir true]
    | none => if s.dir.isSome then [] else [.runtimeDir false]
  else []

def logTarget : Artefact → Option PruneTarget
  | .entry .previousLog => some (.file .previousLog)
  | _ => none

/-- `machine_partial_entries`. -/
def partialTarget : Artefact → Option PruneTarget
  | .entry (.unfinished stem true) => some (.tree (.unfinished stem true))
  | .entry (.unfinished stem false) => some (.file (.unfinished stem false))
  | _ => none

/-- `snapshot_partial_entries`. -/
def snapshotTarget : Artefact → Option PruneTarget
  | .snapshot e => some (.snapshotTree e)
  | .entry _ => none

/-- The entries of a listed machine. -/
def Sys.listed (s : Sys) : List Artefact := if s.status.isSome then (s.dir.map MachineDir.entries).getD [] else []

/-! ## Steps -/

/-- `prepare_machine_creation` after its lock. What an interrupted creation left goes, `snapshots/` included. -/
def beginCreation (s : Sys) (p : Party) (rest : List Instr) : Sys :=
  s.withDir p fun d =>
    if d.publicationComplete then (s.setDir { d with creating := false }).quit p
    else if d.creating then { s.setDir d.cleared with locks := s.locks.forget .snapshots }.next p rest
    else if d.hasNonLockEntries then s.quit p
    else (s.setDir { d with creating := true }).next p rest

/-- The rename that publishes a work file; it fails when the file has gone. -/
def publish (s : Sys) (p : Party) (rest : List Instr) (a : Artefact) : Sys :=
  s.withDir p fun d =>
    if d.entries.contains a then
      (s.setDir { d.remove a with disk := d.disk || a == diskPartial }).edit p fun P =>
        { P with code := rest, building := P.building.filter (· ≠ a) }
    else s.quit p

/-- The shim is spawned under a free pid, which is written to the state before the lock is dropped. -/
def spawnShim (s : Sys) (p : Party) (c : Choice) (rest : List Instr) : Sys :=
  s.withState p fun d st =>
    if (s.proc (.process c.pid)).code = [] ∧ p ≠ .process c.pid then
      let s₁ := s.writeState d (startingState st c.now (some c.pid))
      (s₁.begin (.process c.pid) .shim).edit p fun P => { P with code := rest, checked := false, launching := false }
    else s

/-- `normal_launch`: the state names this shim. -/
def adopt (s : Sys) (p : Party) (rest : List Instr) : Sys :=
  s.withState p fun _ st =>
    if st.status = .starting ∧ p = .process (st.shimPid.getD 0) ∧ st.shimPid.isSome then
      s.edit p fun P => { P with code := rest, launching := true, previous := .failed }
    else s.quit p

/-- A lock that is held by another is waited for. -/
def takeLock (s : Sys) (p : Party) (rest : List Instr) (l : LockFile) : Sys :=
  match s.locks.tryLock p l with
  | some k => { s with locks := k }.next p rest
  | none => s

/-- One step of a party whose next instruction is given. -/
def exec (s : Sys) (p : Party) (c : Choice) (rest : List Instr) : Instr → Sys
  | .ensureDir => { s with dir := some (s.dir.getD .empty) }.next p rest
  | .ensureExists => s.withDir p fun d => if d.creating then s.quit p else s.next p rest
  | .ensureSnapshots => s.withDir p fun d => (s.setDir { d with snapshots := true }).next p rest
  | .openLock .machine => s.withDir p fun _ => { s with locks := s.locks.openFile p .machine }.next p rest
  | .openLock .snapshots => s.withDir p fun d =>
    if d.snapshots then { s with locks := s.locks.openFile p .snapshots }.next p rest else s.quit p
  | .lock l => takeLock s p rest l
  | .unlock l => { s with locks := s.locks.close p l }.edit p fun P =>
    { P with code := rest, checked := P.checked && l != LockFile.machine }
  | .readLive r => readLive s p c rest r
  | .readLocked r => readLocked s p c rest r
  | .beginCreation => beginCreation s p rest
  | .writeSpec => s.withDir p fun d => (s.setDir { d with spec := true }).next p rest
  | .writeState st => s.withDir p fun d => (s.writeState d { withoutPids st .created with lastExit := none }).next p rest
  | .finishCreation => s.withDir p fun d =>
    if d.creating then (s.setDir { d with creating := false }).next p rest else s.quit p
  | .expectDisk found => s.withDir p fun d => if d.disk = found then s.next p rest else s.quit p
  | .removeDisk => s.withDir p fun d => (s.setDir { d with disk := false }).next p rest
  | .discard a => s.withDir p fun d => (s.setDir (d.remove a)).edit p fun P =>
    { P with code := rest, building := P.building.filter (· ≠ a) }
  | .build a => s.withDir p fun d => (s.setDir (d.add a)).edit p fun P =>
    { P with code := rest, building := a :: P.building }
  | .publish a => publish s p rest a
  | .writeRestored => s.withState p fun d st => (s.writeState d (restoredState st)).next p rest
  | .prepareRuntime => s.withState p fun _ st => { s with runtime := true }.edit p fun P =>
    { P with code := rest, launching := true, previous := st.status }
  | .ensureRuntime => { s with runtime := true }.next p rest
  | .writeStarting => s.withState p fun d st => (s.writeState d (startingState st c.now none)).edit p fun P =>
    { P with code := rest, checked := false }
  | .spawnShim => spawnShim s p c rest
  | .adopt => adopt s p rest
  | .writeStatus status => s.withState p fun d st => (s.writeState d { st with status := status }).edit p fun P =>
    { P with code := rest, checked := false }
  | .writeFinal status => s.withState p fun d st => (s.writeState d (finalState st status c.exit)).edit p fun P =>
    { P with code := rest, checked := false }
  | .clearRuntime => { s with runtime := false }.edit p fun P => { P with code := rest, launching := false }
  | .listMachine =>
    if s.dir.any MachineDir.filesReady then s.next p (.readLive .pruneStatus :: rest) else s.next p rest
  | .scanRuntime => { s with plan := { s.plan with runtime := runtimeTargets s } }.next p rest
  | .scanDir => { s with plan := { s.plan with
      files := s.listed.filterMap logTarget ++ s.listed.filterMap partialTarget } }.next p rest
  | .scanSnapshots => { s with plan := { s.plan with snapshots := s.listed.filterMap snapshotTarget } }.next p rest
  | .scanRemoval => { s with plan := { s.plan with
      removals := if s.removal then [.machineRemovalDir] else [] } }.next p rest
  | .executePlan => s.next p (s.plan.items.flatMap PruneTarget.program ++ rest)
  | .removeMachine =>
    if s.status.any fun status => status == .stopped || status == .created || status == .failed then
      s.next p (removeOneProgram ++ rest)
    else s.next p rest
  | .deletePlanned a => { s with dir := s.dir.map (MachineDir.remove · a) }.next p rest
  | .clearInactive => { s with runtime := s.runtime && !(s.proc p).checked }.next p rest
  | .clearUnpublished => { s with runtime := false }.next p rest
  | .clearRemoval =>
    if s.dir.isSome then
      s.next p (.openLock .machine :: .lock .machine :: .sweepRemoval :: .unlock .machine :: rest)
    else s.next p (.sweepRemoval :: rest)
  | .expectLock => if (s.locks.path .machine).isSome then s.next p rest else s.quit p
  | .renameDir => s.withDir p fun _ =>
    { s with dir := none, removal := true, locks := (s.locks.forget .machine).forget .snapshots }.next p rest
  | .sweepRemoval => { s with removal := false }.next p rest

/-- An error return. The guards of the operation remove its work files, and a launch that failed takes its status and its
runtime directory back. -/
def fail (s : Sys) (p : Party) : Sys :=
  let P := s.proc p
  let s₁ := match s.dir with
    | none => s
    | some d => s.setDir { d with
        entries := d.entries.filter fun a => !P.building.contains a
        state := if P.launching then d.state.map (withoutPids · P.previous) else d.state }
  { s₁ with runtime := s.runtime && !P.launching }.quit p

inductive Event
  | start (op : Op)
  | advance (c : Choice)
  | fail
  /-- The process ends and leaves its files behind. -/
  | die
  deriving DecidableEq, Repr

/-- Which party runs which operation: shims are spawned, and prune runs once. -/
def mayStart (s : Sys) : Party → Op → Bool
  | .prune, .prune _ => !s.pruned
  | .process _, .prune _ => false
  | .process _, .shim => false
  | .process _, _ => true
  | .prune, _ => false

/-- One step of one party. -/
def step (s : Sys) : Party × Event → Option Sys
  | (p, .start op) => if (s.proc p).code = [] ∧ mayStart s p op then some (s.begin p op) else none
  | (p, .advance c) =>
    match (s.proc p).code with
    | [] => none
    | i :: rest => some (exec s p c rest i)
  | (p, .fail) => if (s.proc p).code = [] then none else some (fail s p)
  | (p, .die) => if (s.proc p).code = [] then none else some (s.quit p)

/-- No process runs; the machine may be in any condition. -/
structure Initial (s : Sys) : Prop where
  idle : ∀ p, s.proc p = .idle
  closed : ∀ p l, s.locks.opened p l = none
  unlocked : ∀ p l, s.locks.locked p l = false
  sound : s.locks.Sound
  named : ∀ l i, s.locks.path l = some i → s.dir.isSome
  before : s.pruned = false
  unread : s.status = none
  unplanned : s.plan = .empty

/-! ## The property and the condition -/

/-- The machine is starting, running or stopping: its state says so, or a launch holds the machine. -/
def Sys.Active (s : Sys) : Prop :=
  (∃ st, s.recorded = some st ∧ st.status.isActive = true) ∨ ∃ q, (s.proc q).launching = true

/-- A step leaves every work file in progress, and the runtime directory of an active machine. -/
def KeepsWork (s s' : Sys) : Prop :=
  (∀ q a, a ∈ (s.proc q).building → s.has a = true → s'.has a = true) ∧
    (s.Active → s.runtime = true → s'.runtime = true)

/-- The deletions that lack a lock are made as if they had taken it. `disk.qcow2.partial` is deleted while the machine
lock is free, and the runtime directory of a name without a machine while there still is none. The machine directory is
renamed away while the snapshot lock is free, and `snapshots/` is cleared with what an interrupted creation left while
nobody has its lock file open. -/
def AsIfLocked (s : Sys) : Party × Event → Prop
  | (p, .advance _) =>
    match (s.proc p).code.head? with
    | some (.deletePlanned a) => a = diskPartial → s.locks.Free .machine
    | some .clearUnpublished => s.dir = none
    | some .renameDir => s.locks.Free .snapshots
    | some .beginCreation => s.dir.any (fun d => d.creating && !d.publicationComplete) = true → s.locks.Closed .snapshots
    | _ => True
  | _ => True

end Firestone.Machine.PruneRuns
