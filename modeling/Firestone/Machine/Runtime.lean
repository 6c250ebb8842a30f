import Firestone.State
import Firestone.Lib.Runs

/-!
# The runtime directory and the VMM it accounts for

A launch records its VMM twice: its pid in `state.json` and, once it is identified, its process record in
`identity.json` of the runtime directory. `ensure_no_live_runtime` is the guard of every start. It reads both, after a
look at whether the runtime directory exists at all.

One machine is modelled. The shim holds the machine lock from its launch on, every other operation runs under the lock.

* `Sys` — `state.json`, the runtime directory, the shim and the live processes.
* `startCheck` — what `start` does up to and including `ensure_no_live_runtime`.
* `step` — launches, the ends of a shim, reconciliation, `system prune`, snapshot restore and start.
* `EvidenceKept` — the steps that delete evidence are taken only when nothing live depends on it. Under it no start
  passes its check while a recorded VMM is alive (`startCheck_no_live_vmm`).

What probes find and whether a signalled process dies is chosen by the environment.
-/

namespace Firestone.Machine.Runtime

open Firestone.Lib

/-! ## Processes and records -/

/-- One process: a reused pid has another start time. -/
structure ProcessRecord where
  pid : Nat
  startTimeTicks : Nat
  deriving DecidableEq, Repr

/-- The contents of `identity.json`. -/
structure ProcessIdentity where
  shim : ProcessRecord
  vmm : Option ProcessRecord
  sidecars : List (String × ProcessRecord)
  deriving DecidableEq, Repr

/-- The runtime directory of the machine, with `identity.json` if it is there. -/
structure RuntimeDir where
  identity : Option ProcessIdentity
  deriving DecidableEq, Repr

/-- A live shim: whether it has taken the machine lock, and the VMM it has spawned. -/
structure Shim where
  record : ProcessRecord
  locked : Bool
  vmm : Option ProcessRecord
  deriving DecidableEq, Repr

/-- One machine with the processes launched for it. -/
structure Sys where
  state : MachineState
  runtime : Option RuntimeDir
  shim : Option Shim
  alive : List ProcessRecord
  /-- The VMM processes that some launch has recorded in `state.json` or in `identity.json`. -/
  recorded : List ProcessRecord
  deriving DecidableEq, Repr

def Sys.identity (s : Sys) : Option ProcessIdentity := s.runtime.bind RuntimeDir.identity

/-- The VMM that `identity.json` names. -/
def Sys.identityVmm (s : Sys) : Option ProcessRecord := s.identity.bind ProcessIdentity.vmm

/-- Whether the machine lock can be taken by an operation other than the shim. -/
def Sys.lockFree (s : Sys) : Bool := s.shim.all fun sh => !sh.locked

def Sys.setState (s : Sys) (state : MachineState) : Sys := { s with state := state }

def Sys.setIdentity (s : Sys) (identity : ProcessIdentity) : Sys := { s with runtime := some ⟨some identity⟩ }

/-- `clear_machine_runtime_dir`, with the directory itself. -/
def Sys.clearRuntime (s : Sys) : Sys := { s with runtime := none }

/-! ## Probes -/

/-- The answer to a ping: refused when nothing listens on the socket. A live process need not answer. -/
inductive Ping
  | answers | refused | failed (error : FirestoneError)
  deriving DecidableEq, Repr

/-- What the probes of one operation find. -/
structure Probes where
  live : Ping
  /-- The second reading of the VMM, made under the lock before a rewrite. -/
  liveAgain : Ping
  shim : Ping
  api : Ping
  /-- Whether a signalled process ends. -/
  dies : ProcessRecord → Bool
  now : String

/-! ## Reading the live state -/

def Sys.shimVerified (s : Sys) : Bool :=
  match s.state.shimPid, s.shim with
  | some pid, some sh => pid == sh.record.pid
  | _, _ => false

/-- `observe_liveness`: without a runtime directory the VMM is not asked. -/
def observeLiveness (s : Sys) (ping : Ping) : Res LivenessObservation :=
  match s.runtime, ping with
  | none, _ => .ok ⟨false, s.shimVerified, false⟩
  | some _, .answers => .ok ⟨true, s.shimVerified, true⟩
  | some _, .refused => .ok ⟨false, s.shimVerified, true⟩
  | some _, .failed e => .error e

def reportedState (s : Sys) (r : ReconcileReport) : LiveMachineState := ⟨{ s.state with status := r.status }, r.supervision⟩

/-- `read_reconciled_machine_state_live_locked`. -/
def readReconciled (s : Sys) (p : Probes) : Res (Sys × LiveMachineState) := do
  let o ← observeLiveness s p.live
  let r := reconcile s.state.status o
  if r.rewrite.isNone then .ok (s, reportedState s r)
  else do
    let o ← observeLiveness s p.liveAgain
    let r := reconcile s.state.status o
    match reconciledState s.state r p.now with
    | some state => .ok (s.setState state, ⟨state, r.supervision⟩)
    | none => .ok (s, reportedState s r)

/-! ## The guard of a start -/

def liveVmmError (name : String) : FirestoneError :=
  (FirestoneError.new .alreadyRunning ("machine `" ++ name ++ "` has a verified live or hung VMM")).withHint
    "recover or stop the recorded VMM; do not start a duplicate"

/-- The stale sidecars `identity.json` names are terminated one after another. -/
def terminateSidecars (dies : ProcessRecord → Bool) :
    List (String × ProcessRecord) → List ProcessRecord → List ProcessRecord × Res Unit
  | [], alive => (alive, .ok ())
  | (sidecar, record) :: rest, alive =>
    if record ∈ alive then
      if dies record then terminateSidecars dies rest (alive.erase record)
      else (alive, .error (.new .timeout ("cannot terminate stale verified sidecar `" ++ sidecar ++ "`")))
    else terminateSidecars dies rest alive

/-- Each sidecar pid of `state.json` needs a dead process of that pid in `identity.json`. -/
def checkSidecarPids (name : String) (identity : Option ProcessIdentity) (alive : List ProcessRecord) :
    List (String × Nat) → Res Unit
  | [] => .ok ()
  | (sidecar, pid) :: rest =>
    match (identity.bind fun i => i.sidecars.lookup sidecar).filter fun r => r.pid == pid with
    | none => .error <| (FirestoneError.new .conflict ("machine `" ++ name ++ "` retains sidecar pid " ++ toString pid ++
        " without matching absence evidence")).withHint
        "preserve the runtime directory and recover the process identity"
    | some record =>
      if record ∈ alive then
        .error (.new .conflict ("verified sidecar `" ++ sidecar ++ "` pid " ++ toString pid ++ " remained alive"))
      else checkSidecarPids name identity alive rest

/-- `ensure_recorded_vmm_absent`. -/
def ensureRecordedVmmAbsent (name : String) (s : Sys) (p : Probes) : Sys × Res Unit :=
  if (s.identityVmm.any fun r => r ∈ s.alive) then (s, .error (liveVmmError name))
  else
    match terminateSidecars p.dies ((s.identity.map ProcessIdentity.sidecars).getD []) s.alive with
    | (alive, .error e) => ({ s with alive := alive }, .error e)
    | (alive, .ok ()) =>
      if s.state.vmmPid.isSome ∧ s.state.vmmPid ≠ s.identityVmm.map ProcessRecord.pid then
        ({ s with alive := alive }, .error <| (FirestoneError.new .conflict
          ("machine `" ++ name ++ "` retains a VMM pid without matching absence evidence")).withHint
          "recover the process identity before starting another VMM")
      else ({ s with alive := alive }, checkSidecarPids name s.identity alive s.state.sidecarPids)

/-- `ensure_no_live_runtime`. -/
def ensureNoLiveRuntime (name : String) (s : Sys) (p : Probes) : Sys × Res Unit :=
  if s.runtime.isNone then (s, .ok ())
  else
    match p.shim with
    | .answers => (s, .error (.new .alreadyRunning ("machine `" ++ name ++ "` already has a live shim")))
    | .failed _ => (s, .error <| (FirestoneError.new .conflict "cannot prove stale shim socket").withHint
        "inspect the existing runtime directory before retrying")
    | .refused =>
      match ensureRecordedVmmAbsent name s p with
      | (s, .error e) => (s, .error e)
      | (s, .ok ()) =>
        match p.api with
        | .answers => (s, .error (.new .alreadyRunning ("machine `" ++ name ++ "` already has a live VMM")))
        | .refused => (s, .ok ())
        | .failed _ => (s, .error <| (FirestoneError.new .conflict "cannot prove stale VMM socket").withHint
            "inspect the existing runtime directory before retrying")

/-- `ensure_startable`, and the same test at the head of `prepare_start`. -/
def ensureStartable (name : String) (state : MachineState) : Res Unit :=
  if state.status.isActive then
    .error <| (FirestoneError.new .alreadyRunning ("machine " ++ name ++ " is already active")).withHint
      ("use firestone stop " ++ name ++ " before starting it again")
  else .ok ()

/-- A start up to and including `ensure_no_live_runtime`: the system it leaves and, if it passed, the state read. -/
def startCheck (name : String) (s : Sys) (p : Probes) : Sys × Res MachineState :=
  match readReconciled s p with
  | .error e => (s, .error e)
  | .ok (s₁, live) =>
    match ensureStartable name live.state with
    | .error e => (s₁, .error e)
    | .ok () =>
      match ensureNoLiveRuntime name s₁ p with
      | (s₂, .error e) => (s₂, .error e)
      | (s₂, .ok ()) => (s₂, .ok live.state)

/-! ## Operations under the lock -/

/-- Where a start ends after its check has passed. -/
inductive StartEnd
  /-- It stops after it emptied the runtime directory. -/
  | emptied
  /-- It stops after `prepare_start` wrote the state. -/
  | prepared
  /-- `prepare_start` fails and removes the runtime directory. -/
  | failed
  /-- `cancel_prepared` or `rollback_before_shim`. -/
  | rolledBack (lastExit : Option LastExit)
  /-- It stops after the first `starting` write. -/
  | starting
  /-- The shim is spawned and its pid is durable. -/
  | handedOff (shim : ProcessRecord)

/-- A state without process ids. -/
def withoutPids (state : MachineState) (status : MachineStatus) : MachineState :=
  { state with status := status, shimPid := none, vmmPid := none, sidecarPids := [], startedAt := none, degraded := [] }

def startingState (state : MachineState) (now : String) (shimPid : Option Nat) : MachineState :=
  { state with
    status := .starting, shimPid := shimPid, vmmPid := none, sidecarPids := [], startedAt := some now, degraded := [] }

/-- The runtime directory without its entries. -/
def Sys.emptyRuntime (s : Sys) : Sys := { s with runtime := some ⟨none⟩ }

/-- What a start does after its check, up to its end. -/
def startRest (s : Sys) (state : MachineState) (now : String) : StartEnd → Sys
  | .emptied => s.emptyRuntime
  | .prepared => s.emptyRuntime.setState state
  | .failed => s.clearRuntime
  | .rolledBack lastExit =>
    (s.setState { withoutPids state state.status with lastExit := lastExit }).clearRuntime
  | .starting => s.emptyRuntime.setState (startingState state now none)
  | .handedOff sh =>
    { s.emptyRuntime.setState (startingState state now (some sh.pid)) with shim := some ⟨sh, false, none⟩ }

def start (name : String) (s : Sys) (p : Probes) (e : StartEnd) : Sys :=
  match startCheck name s p with
  | (s₁, .error _) => s₁
  | (s₁, .ok state) => startRest s₁ state p.now e

/-- A reader that reconciles. -/
def reconcileOp (s : Sys) (p : Probes) : Sys :=
  match readReconciled s p with
  | .error _ => s
  | .ok (s₁, _) => s₁

/-- `apply_prune_item` of a runtime directory: cleared when the machine is not reported active. -/
def pruneRuntimeDir (s : Sys) (p : Probes) : Sys :=
  match readReconciled s p with
  | .error _ => s
  | .ok (s₁, live) => if live.state.status.isActive then s₁ else s₁.clearRuntime

/-- What `snapshot_restore` does to the state: a failed machine becomes stopped and keeps its pids. -/
def restoredState (state : MachineState) : MachineState :=
  { state with status := if state.status = .failed then .stopped else state.status, degraded := [] }

def snapshotRestore (s : Sys) (p : Probes) : Sys :=
  match readReconciled s p with
  | .error _ => s
  | .ok (s₁, live) => if live.state.status.isActive then s₁ else s₁.setState (restoredState live.state)

/-- The launch client gives up: `terminate_unready_shim` or `terminate_cancelled_shim` from the lock on. -/
def abandonLaunch (s : Sys) (status : MachineStatus) (lastExit : Option LastExit) : Sys :=
  (s.setState { withoutPids s.state status with lastExit := lastExit }).clearRuntime

/-! ## The shim -/

inductive ShimEvent
  | acquire
  | spawnSidecar (sidecar : String) (record : ProcessRecord)
  | sidecarGone (sidecar : String)
  | spawnVmm (record : ProcessRecord)
  /-- `state.vmm_pid` is written. -/
  | recordVmmPid
  /-- `identity.vmm` is published. -/
  | publishVmm
  /-- A status write while the VMM runs. -/
  | writeStatus (status : MachineStatus) (degraded : List String)
  /-- `write_final_state` once no VMM is left, with or without the cleanup after it. -/
  | finish (status : MachineStatus) (exit : LastExit) (cleanup : Bool)
  | failRecoverable (exit : LastExit)
  | failAmbiguous (exit : LastExit)
  | die

/-- `write_recoverable_failed_state`. -/
def recoverableFailedState (state : MachineState) (record : ProcessRecord) (exit : LastExit) : MachineState :=
  { state with
    status := .failed, shimPid := none, vmmPid := some record.pid, degraded := [], lastExit := some exit }

/-- `write_ambiguous_failed_state`. -/
def ambiguousFailedState (state : MachineState) (exit : LastExit) : MachineState :=
  { state with status := .failed, shimPid := none, lastExit := some exit }

/-- The identity a shim publishes, from what it has published so far. -/
def Sys.publishedIdentity (s : Sys) (sh : Shim) : ProcessIdentity := s.identity.getD ⟨sh.record, none, []⟩

/-- A step of a live shim. Before `acquire` it can only take the lock or die. -/
def shimStep (s : Sys) (sh : Shim) : ShimEvent → Option Sys
  | .die => some { s with shim := none }
  | .acquire =>
    if sh.locked then none
    else if s.state.status = .starting ∧ s.state.shimPid = some sh.record.pid then
      some { s.setIdentity ⟨sh.record, none, []⟩ with shim := some { sh with locked := true } }
    else some { s with shim := none }
  | .spawnSidecar sidecar r =>
    if sh.locked ∧ r ∉ s.alive ∧ r ∉ s.recorded then
      let i := s.publishedIdentity sh
      some { s.setIdentity { i with sidecars := (sidecar, r) :: i.sidecars } with
        alive := r :: s.alive, state := { s.state with sidecarPids := (sidecar, r.pid) :: s.state.sidecarPids } }
    else none
  | .sidecarGone sidecar =>
    if sh.locked then
      let i := s.publishedIdentity sh
      some { s.setIdentity { i with sidecars := i.sidecars.filter fun x => x.1 != sidecar } with
        state := { s.state with sidecarPids := s.state.sidecarPids.filter fun x => x.1 != sidecar } }
    else none
  | .spawnVmm r =>
    if sh.locked ∧ sh.vmm = none ∧ r ∉ s.alive ∧ r ∉ s.recorded then
      some { s with alive := r :: s.alive, shim := some { sh with vmm := some r } }
    else none
  | .recordVmmPid =>
    match sh.vmm with
    | some r => some { s.setState { s.state with vmmPid := some r.pid } with recorded := r :: s.recorded }
    | none => none
  | .publishVmm =>
    match sh.vmm with
    | some r => some { s.setIdentity { s.publishedIdentity sh with vmm := some r } with recorded := r :: s.recorded }
    | none => none
  | .writeStatus status degraded =>
    if sh.locked ∧ status.isActive then some (s.setState { s.state with status := status, degraded := degraded })
    else none
  | .finish status exit cleanup =>
    if sh.locked ∧ (sh.vmm.all fun r => r ∉ s.alive) then
      let s₁ := { s.setState (finalState s.state status exit) with shim := none }
      some (if cleanup then s₁.clearRuntime else s₁)
    else none
  | .failRecoverable exit =>
    match sh.vmm with
    | some r =>
      some { s.setIdentity { s.publishedIdentity sh with vmm := some r } with
        state := recoverableFailedState s.state r exit, shim := none, recorded := r :: s.recorded }
    | none => none
  | .failAmbiguous exit =>
    if sh.locked then some { s.setState (ambiguousFailedState s.state exit) with shim := none } else none

/-! ## Runs -/

inductive Event
  | start (p : Probes) (e : StartEnd)
  | reconcile (p : Probes)
  | prune (p : Probes)
  | restore (p : Probes)
  | abandon (status : MachineStatus) (lastExit : Option LastExit)
  | shim (e : ShimEvent)
  /-- A process ends. -/
  | exit (r : ProcessRecord)

def step (name : String) (s : Sys) : Event → Option Sys
  | .start p e => if s.lockFree then some (start name s p e) else none
  | .reconcile p => if s.lockFree then some (reconcileOp s p) else none
  | .prune p => if s.lockFree then some (pruneRuntimeDir s p) else none
  | .restore p => if s.lockFree then some (snapshotRestore s p) else none
  | .abandon status lastExit => if s.lockFree then some (abandonLaunch s status lastExit) else none
  | .shim e => s.shim.bind (shimStep s · e)
  | .exit r => some { s with alive := s.alive.erase r }

/-- A machine for which nothing has been launched. -/
structure Initial (s : Sys) : Prop where
  noShim : s.shim = none
  noneAlive : s.alive = []
  noneRecorded : s.recorded = []

/-! ## The condition -/

/-- No VMM that a launch has recorded is alive. -/
def Sys.NoLiveVmm (s : Sys) : Prop := ∀ r ∈ s.recorded, r ∉ s.alive

/-- Every recorded live VMM is named by `identity.json`. -/
def Sys.Identified (s : Sys) : Prop := ∀ r ∈ s.recorded, r ∈ s.alive → s.identityVmm = some r

/-- Reading the live state rewrites `state.json`. -/
def Sys.rewrites (s : Sys) (p : Probes) : Bool :=
  match readReconciled s p with
  | .error _ => false
  | .ok (s₁, _) => s₁.state != s.state

/-- Reading the live state reports an inactive machine. -/
def Sys.reportsInactive (s : Sys) (p : Probes) : Bool :=
  match readReconciled s p with
  | .error _ => false
  | .ok (_, live) => !live.state.status.isActive

/-- The pid of `state.json` is dropped only while `identity.json` names the live VMM; the runtime directory is deleted
by a prune, or by a launch client that gives up, only when no recorded VMM is alive. -/
def EvidenceKept (s : Sys) : Event → Prop
  | .start p _ | .reconcile p | .restore p => s.rewrites p → s.Identified
  | .prune p => s.reportsInactive p → s.NoLiveVmm
  | .abandon _ _ => s.shim = none ∧ s.NoLiveVmm
  | .shim _ | .exit _ => True

/-! ## What the operations read and write -/

section operations

variable {name : String} {s s₁ : Sys} {p : Probes} {live : LiveMachineState} {ping : Ping} {o : LivenessObservation}

theorem observeLiveness_verified (h : observeLiveness s ping = .ok o) : o.shimVerified = s.shimVerified := by
  unfold observeLiveness at h
  split at h <;> cases h <;> rfl

/-- Reading the live state either leaves `state.json` alone and reports a status, or drops its process ids from an
active state whose shim is gone. -/
theorem readReconciled_cases (h : readReconciled s p = .ok (s₁, live)) :
    (s₁ = s ∧ ∃ o, o.shimVerified = s.shimVerified ∧ live = reportedState s (reconcile s.state.status o)) ∨
      (s.rewrites p = true ∧ s.shimVerified = false ∧ live.state.status = .stopped ∧
        ∃ state, s₁ = s.setState state) := by
  have hread := h
  unfold readReconciled at h
  obtain ⟨o, ho, h⟩ := Res.bind_ok h
  dsimp only at h
  split at h
  · cases h
    exact .inl ⟨rfl, o, observeLiveness_verified ho, rfl⟩
  obtain ⟨o', ho', h⟩ := Res.bind_ok h
  have hv := observeLiveness_verified ho'
  cases hr : (reconcile s.state.status o').rewrite with
  | none =>
    simp only [reconciledState, hr, Option.map_none] at h
    cases h
    exact .inl ⟨rfl, o', hv, rfl⟩
  | some reason =>
    have hfalse : s.shimVerified = false := by
      cases hsv : s.shimVerified with
      | false => rfl
      | true => rw [reconcile_verified (hv.trans hsv)] at hr; cases hr
    have hactive : s.state.status.isActive = true := reconcile_rewrite_active hr
    simp only [reconciledState, hr, Option.map_some] at h
    cases h
    refine .inr ⟨?_, hfalse, rfl, _, rfl⟩
    -- The rewrite is visible in the status.
    simp only [Sys.rewrites, hread, bne_iff_ne, ne_eq, Sys.setState]
    intro he
    rw [← he] at hactive
    cases hactive

theorem terminateSidecars_subset {dies : ProcessRecord → Bool} {r : ProcessRecord} :
    ∀ {sidecars : List (String × ProcessRecord)} {alive : List ProcessRecord},
      r ∈ (terminateSidecars dies sidecars alive).1 → r ∈ alive
  | [], _, h => h
  | (sidecar, record) :: rest, alive, h => by
    unfold terminateSidecars at h
    split at h
    · split at h
      · exact List.mem_of_mem_erase (terminateSidecars_subset h)
      · exact h
    · exact terminateSidecars_subset h

/-- The guard only ends processes. -/
theorem ensureRecordedVmmAbsent_frame :
    ∃ alive, (ensureRecordedVmmAbsent name s p).1 = { s with alive := alive } ∧ ∀ r ∈ alive, r ∈ s.alive := by
  unfold ensureRecordedVmmAbsent
  split
  · exact ⟨s.alive, rfl, fun _ h => h⟩
  · have hsub := @terminateSidecars_subset p.dies
    split
    · rename_i alive e heq
      exact ⟨alive, rfl, fun r hr => hsub (by rw [heq]; exact hr)⟩
    · rename_i alive heq
      refine ⟨alive, ?_, fun r hr => hsub (by rw [heq]; exact hr)⟩
      split <;> rfl

/-- What the guard has proved when it passes. -/
theorem ensureRecordedVmmAbsent_ok (h : (ensureRecordedVmmAbsent name s p).2 = .ok ()) :
    (∀ r, s.identityVmm = some r → r ∉ s.alive) ∧
      (s.state.vmmPid = none ∨ s.state.vmmPid = s.identityVmm.map ProcessRecord.pid) := by
  unfold ensureRecordedVmmAbsent at h
  split at h
  · cases h
  rename_i hdead
  split at h
  · cases h
  split at h
  · cases h
  rename_i hpid
  refine ⟨fun r hr => ?_, ?_⟩
  · simpa [hr] using hdead
  · cases hv : s.state.vmmPid with
    | none => exact .inl rfl
    | some pid =>
      rw [hv] at hpid
      exact .inr (by simpa using hpid)

theorem ensureNoLiveRuntime_frame :
    ∃ alive, (ensureNoLiveRuntime name s p).1 = { s with alive := alive } ∧ ∀ r ∈ alive, r ∈ s.alive := by
  have hself : ∃ alive, s = { s with alive := alive } ∧ ∀ r ∈ alive, r ∈ s.alive := ⟨s.alive, rfl, fun _ h => h⟩
  have hvmm := @ensureRecordedVmmAbsent_frame name s p
  unfold ensureNoLiveRuntime
  split
  · exact hself
  split
  · exact hself
  · exact hself
  split
  · rename_i heq
    rw [heq] at hvmm
    exact hvmm
  · rename_i heq
    rw [heq] at hvmm
    split <;> exact hvmm

end operations

/-! ## The invariant -/

/-- Every recorded live VMM is accounted for: `identity.json` names it, or `state.json` holds its pid while the runtime
directory is there and names no VMM. -/
def Sys.Evidence (s : Sys) : Prop :=
  ∀ r ∈ s.recorded, r ∈ s.alive →
    s.identityVmm = some r ∨ s.runtime.isSome ∧ s.identityVmm = none ∧ s.state.vmmPid = some r.pid

structure Inv (s : Sys) : Prop where
  evidence : s.Evidence
  /-- A live VMM that is recorded belongs to the live shim, if there is one. -/
  owned : ∀ sh, s.shim = some sh → ∀ r ∈ s.recorded, r ∈ s.alive → sh.vmm = some r
  unlocked : ∀ sh, s.shim = some sh → sh.locked = false →
    sh.vmm = none ∧ s.state.status = .starting ∧ s.state.shimPid = some sh.record.pid
  locked : ∀ sh, s.shim = some sh → sh.locked = true → ∃ i, s.identity = some i ∧ (i.vmm = none ∨ i.vmm = sh.vmm)

section invariant

variable {name : String} {s s₁ s' : Sys} {p : Probes} {live : LiveMachineState}

theorem Sys.Evidence.shrink {alive : List ProcessRecord} (h : s.Evidence) (hsub : ∀ r ∈ alive, r ∈ s.alive) :
    Sys.Evidence { s with alive := alive } := fun r hr ha => h r hr (hsub r ha)

theorem Sys.NoLiveVmm.evidence (h : s.NoLiveVmm) (ha : s'.alive = s.alive) (hr : s'.recorded = s.recorded) :
    s'.Evidence := fun r hr' ha' => absurd (ha ▸ ha') (h r (hr ▸ hr'))

theorem Sys.Identified.evidence (h : s.Identified) (state : MachineState) : (s.setState state).Evidence :=
  fun r hr ha => .inl (h r hr ha)

/-- **The guard**: with the evidence in place, a start that passes found no recorded VMM alive. -/
theorem ensureNoLiveRuntime_ok (he : s.Evidence) (h : (ensureNoLiveRuntime name s p).2 = .ok ()) : s.NoLiveVmm := by
  intro r hr ha
  have hev := he r hr ha
  unfold ensureNoLiveRuntime at h
  split at h
  · rename_i hnone
    -- The early return: evidence is kept in the runtime directory, so there is none to find.
    rcases hev with hi | ⟨hsome, -, -⟩
    · simp [Sys.identityVmm, Sys.identity, Option.isNone_iff_eq_none.mp hnone] at hi
    · simp [Option.isNone_iff_eq_none.mp hnone] at hsome
  split at h
  · cases h
  · cases h
  split at h
  · cases h
  rename_i heq
  obtain ⟨hdead, hpid⟩ := @ensureRecordedVmmAbsent_ok name s p (by rw [heq])
  rcases hev with hi | ⟨-, hnone, hsome⟩
  · exact hdead r hi ha
  · rw [hnone, hsome] at hpid
    rcases hpid with hp | hp <;> cases hp

/-- Reading the live state keeps the evidence when a rewrite finds every live VMM identified. -/
theorem Sys.Evidence.read (he : s.Evidence) (hok : s.rewrites p → s.Identified)
    (h : readReconciled s p = .ok (s₁, live)) : s₁.Evidence := by
  rcases readReconciled_cases h with ⟨rfl, -⟩ | ⟨hw, -, -, state, rfl⟩
  · exact he
  · exact (hok hw).evidence state

theorem readReconciled_frame (h : readReconciled s p = .ok (s₁, live)) :
    s₁.shim = s.shim ∧ s₁.alive = s.alive ∧ s₁.recorded = s.recorded := by
  rcases readReconciled_cases h with ⟨rfl, -⟩ | ⟨-, -, -, state, rfl⟩
  · exact ⟨rfl, rfl, rfl⟩
  · exact ⟨rfl, rfl, rfl⟩

/-- Between the handoff and its lock, a shim makes the machine read as active, and nothing is rewritten. -/
theorem Inv.read_active (hi : Inv s) (hfree : s.lockFree = true) {sh : Shim} (hsh : s.shim = some sh)
    (h : readReconciled s p = .ok (s₁, live)) : s₁ = s ∧ live.state.status.isActive = true := by
  have hl : sh.locked = false := by simpa [Sys.lockFree, hsh] using hfree
  obtain ⟨-, hst, hpid⟩ := hi.unlocked sh hsh hl
  have hv : s.shimVerified = true := by simp [Sys.shimVerified, hpid, hsh]
  rcases readReconciled_cases h with ⟨rfl, o, ho, rfl⟩ | ⟨-, hf, -⟩
  · refine ⟨rfl, ?_⟩
    rw [hst]
    exact reconcile_starting_active (ho.trans hv)
  · rw [hv] at hf
    cases hf

theorem Inv.of_noShim (hs : s.shim = none) (he : s.Evidence) : Inv s where
  evidence := he
  owned sh h := by rw [hs] at h; cases h
  unlocked sh h := by rw [hs] at h; cases h
  locked sh h := by rw [hs] at h; cases h

theorem Initial.inv (h : Initial s) : Inv s :=
  .of_noShim h.noShim fun r hr => by rw [h.noneRecorded] at hr; cases hr

/-- An operation under the lock that does nothing to a machine read as active keeps the invariant, if it keeps the
evidence and starts no shim where there is none. -/
theorem Inv.locked_op (hi : Inv s) (hfree : s.lockFree = true) (op : Sys → LiveMachineState → Sys)
    (hactive : ∀ live, live.state.status.isActive = true → op s live = s)
    (hnone : ∀ s₁ live, s.shim = none → readReconciled s p = .ok (s₁, live) → Inv (op s₁ live)) :
    Inv (match readReconciled s p with
      | .error _ => s
      | .ok (s₁, live) => op s₁ live) := by
  cases hr : readReconciled s p with
  | error e => exact hi
  | ok x =>
    obtain ⟨s₁, live⟩ := x
    cases hsh : s.shim with
    | none => exact hnone s₁ live hsh hr
    | some sh =>
      obtain ⟨rfl, ha⟩ := hi.read_active hfree hsh hr
      simp only [hactive live ha]
      exact hi

/-- `startCheck` as one operation over the state it has read. -/
def checkRead (name : String) (p : Probes) (s₁ : Sys) (live : LiveMachineState) : Sys × Res MachineState :=
  match ensureStartable name live.state with
  | .error e => (s₁, .error e)
  | .ok () =>
    match ensureNoLiveRuntime name s₁ p with
    | (s₂, .error e) => (s₂, .error e)
    | (s₂, .ok ()) => (s₂, .ok live.state)

theorem startCheck_eq : startCheck name s p =
    match readReconciled s p with
    | .error e => (s, .error e)
    | .ok (s₁, live) => checkRead name p s₁ live := rfl

/-- A check that fails ends processes at most; one that passes found no recorded VMM alive. -/
theorem checkRead_cases (he : s.Evidence) :
    ∃ alive, (checkRead name p s live).1 = { s with alive := alive } ∧ (∀ r ∈ alive, r ∈ s.alive) ∧
      ∀ state, (checkRead name p s live).2 = .ok state → s.NoLiveVmm := by
  unfold checkRead
  split
  · exact ⟨s.alive, rfl, fun _ h => h, fun _ h => by cases h⟩
  obtain ⟨alive, hframe, hsub⟩ := @ensureNoLiveRuntime_frame name s p
  have hpass := @ensureNoLiveRuntime_ok name s p he
  split
  · rename_i heq
    rw [heq] at hframe
    exact ⟨alive, hframe, hsub, fun _ h => by cases h⟩
  · rename_i heq
    rw [heq] at hframe hpass
    exact ⟨alive, hframe, hsub, fun _ _ => hpass rfl⟩

/-- After a passed check the rest of a start is free to rewrite what it likes. -/
theorem startRest_inv (hs : s.shim = none) (hno : s.NoLiveVmm) (state : MachineState) (now : String) (e : StartEnd) :
    Inv (startRest s state now e) := by
  cases e with
  | emptied => exact .of_noShim hs (hno.evidence rfl rfl)
  | prepared => exact .of_noShim hs (hno.evidence rfl rfl)
  | failed => exact .of_noShim hs (hno.evidence rfl rfl)
  | rolledBack lastExit => exact .of_noShim hs (hno.evidence rfl rfl)
  | starting => exact .of_noShim hs (hno.evidence rfl rfl)
  | handedOff sh =>
    refine ⟨hno.evidence rfl rfl, fun sh' _ r hr ha => absurd ha (hno r hr), fun sh' h _ => ?_, fun sh' h hl => ?_⟩
    · cases h
      exact ⟨rfl, rfl, rfl⟩
    · cases h
      cases hl

/-- What a start does with the state it has read. -/
def startRead (name : String) (p : Probes) (e : StartEnd) (s₁ : Sys) (live : LiveMachineState) : Sys :=
  match checkRead name p s₁ live with
  | (s₂, .error _) => s₂
  | (s₂, .ok state) => startRest s₂ state p.now e

theorem start_eq (e : StartEnd) : start name s p e =
    match readReconciled s p with
    | .error _ => s
    | .ok (s₁, live) => startRead name p e s₁ live := by
  unfold start
  rw [startCheck_eq]
  cases readReconciled s p <;> rfl

theorem startRead_inv (hs : s.shim = none) (he : s.Evidence) (e : StartEnd) : Inv (startRead name p e s live) := by
  obtain ⟨alive, hframe, hsub, hpass⟩ := @checkRead_cases name s p live he
  unfold startRead
  split
  · rename_i heq
    rw [heq] at hframe
    obtain rfl : _ = _ := hframe
    exact .of_noShim hs (he.shrink hsub)
  · rename_i state heq
    rw [heq] at hframe hpass
    have hno := hpass state rfl
    obtain rfl : _ = _ := hframe
    have hno' : Sys.NoLiveVmm { s with alive := alive } := fun r hr ha => hno r hr (hsub r ha)
    exact startRest_inv (by exact hs) hno' _ _ _

theorem Inv.start (hi : Inv s) (hfree : s.lockFree = true) (hok : s.rewrites p → s.Identified) (e : StartEnd) :
    Inv (start name s p e) := by
  rw [start_eq]
  refine hi.locked_op hfree (startRead name p e) (fun live ha => ?_) fun s₁ live hs hr => ?_
  · simp [startRead, checkRead, ensureStartable, ha]
  · exact startRead_inv ((readReconciled_frame hr).1.trans hs) (hi.evidence.read hok hr) e

theorem Inv.reconcileOp (hi : Inv s) (hfree : s.lockFree = true) (hok : s.rewrites p → s.Identified) :
    Inv (reconcileOp s p) :=
  hi.locked_op hfree (fun s₁ _ => s₁) (fun _ _ => rfl) fun _ _ hs hr =>
    .of_noShim ((readReconciled_frame hr).1.trans hs) (hi.evidence.read hok hr)

theorem Inv.pruneRuntimeDir (hi : Inv s) (hfree : s.lockFree = true) (hok : s.reportsInactive p → s.NoLiveVmm) :
    Inv (pruneRuntimeDir s p) := by
  refine hi.locked_op hfree (fun s₁ live => if live.state.status.isActive then s₁ else s₁.clearRuntime)
    (fun live ha => if_pos ha) fun s₁ live hs hr => ?_
  obtain ⟨hsh, halive, hrec⟩ := readReconciled_frame hr
  by_cases ha : live.state.status.isActive = true
  · rw [if_pos ha]
    rcases readReconciled_cases hr with ⟨rfl, -⟩ | ⟨-, -, hst, -⟩
    · exact hi
    · rw [hst] at ha
      cases ha
  · rw [if_neg ha]
    have hno : s.NoLiveVmm := hok (by simpa [Sys.reportsInactive, hr] using ha)
    exact .of_noShim (hsh.trans hs) (hno.evidence halive hrec)

theorem Inv.snapshotRestore (hi : Inv s) (hfree : s.lockFree = true) (hok : s.rewrites p → s.Identified) :
    Inv (snapshotRestore s p) := by
  refine hi.locked_op hfree
    (fun s₁ live => if live.state.status.isActive then s₁ else s₁.setState (restoredState live.state))
    (fun live ha => if_pos ha) fun s₁ live hs hr => ?_
  have hs₁ := (readReconciled_frame hr).1.trans hs
  have he := hi.evidence.read hok hr
  by_cases ha : live.state.status.isActive = true
  · rw [if_pos ha]
    exact .of_noShim hs₁ he
  · rw [if_neg ha]
    refine .of_noShim hs₁ ?_
    -- A restore keeps the pid of the state it has read.
    rcases readReconciled_cases hr with ⟨rfl, o, -, rfl⟩ | ⟨hw, -, -, state, rfl⟩
    · exact he
    · exact (hok hw).evidence _

end invariant

section shim

variable {name : String} {s s' : Sys} {sh : Shim}

theorem Inv.of_shim (hl : sh.locked = true) (hs' : s'.shim = some sh) (he : s'.Evidence) (hown : ∀ r ∈ s'.recorded, r ∈ s'.alive → sh.vmm = some r)
    (hid : ∃ i, s'.identity = some i ∧ (i.vmm = none ∨ i.vmm = sh.vmm)) : Inv s' where
  evidence := he
  owned sh' h := by
    rw [hs'] at h
    cases h
    exact hown
  unlocked sh' h hu := by
    rw [hs'] at h
    cases h
    rw [hl] at hu
    cases hu
  locked sh' h _ := by
    rw [hs'] at h
    cases h
    exact hid

theorem publishedIdentity_eq (hi : Inv s) (hsh : s.shim = some sh) (hl : sh.locked = true) :
    s.identity = some (s.publishedIdentity sh) := by
  obtain ⟨i, hid, -⟩ := hi.locked sh hsh hl
  simp [Sys.publishedIdentity, hid]

theorem locked_of_vmm (hi : Inv s) (hsh : s.shim = some sh) {r : ProcessRecord} (hv : sh.vmm = some r) :
    sh.locked = true := by
  cases hl : sh.locked with
  | true => rfl
  | false =>
    have := (hi.unlocked sh hsh hl).1
    rw [hv] at this
    cases this

/-- A shim without a live VMM of its own leaves no recorded VMM alive. -/
theorem Inv.noLiveVmm (hi : Inv s) (hsh : s.shim = some sh) (hv : ∀ r, sh.vmm = some r → r ∉ s.alive) : s.NoLiveVmm :=
  fun r hr ha => hv r (hi.owned sh hsh r hr ha) ha

/-- The VMM `identity.json` names, read off the identity the shim has published. -/
theorem identityVmm_published (hi : Inv s) (hsh : s.shim = some sh) (hl : sh.locked = true) :
    s.identityVmm = (s.publishedIdentity sh).vmm := by
  rw [Sys.identityVmm, publishedIdentity_eq hi hsh hl]
  rfl

/-- Changes of the sidecars: the identity keeps its VMM, the state keeps its pid. -/
theorem Inv.sidecars (hi : Inv s) (hsh : s.shim = some sh) (hl : sh.locked = true) (hs' : s'.shim = some sh)
    (hrec : s'.recorded = s.recorded) (halive : ∀ r ∈ s.recorded, r ∈ s'.alive → r ∈ s.alive)
    (hpid : s'.state.vmmPid = s.state.vmmPid) {i : ProcessIdentity} (hid : s'.identity = some i)
    (hvmm : i.vmm = (s.publishedIdentity sh).vmm) : Inv s' := by
  have hrun : s'.runtime.isSome = true := by
    cases hr : s'.runtime with
    | none => simp [Sys.identity, hr] at hid
    | some d => rfl
  have hsame : s'.identityVmm = s.identityVmm := by
    rw [identityVmm_published hi hsh hl, ← hvmm, Sys.identityVmm, hid]
    rfl
  refine .of_shim hl hs' (fun r hr ha => ?_) (fun r hr ha => ?_) ⟨i, hid, ?_⟩
  · rw [hrec] at hr
    rw [hsame, hpid]
    rcases hi.evidence r hr (halive r hr ha) with h | ⟨-, h1, h2⟩
    · exact .inl h
    · exact .inr ⟨hrun, h1, h2⟩
  · rw [hrec] at hr
    exact hi.owned sh hsh r hr (halive r hr ha)
  · obtain ⟨j, hj, hor⟩ := hi.locked sh hsh hl
    rw [publishedIdentity_eq hi hsh hl] at hj
    cases hj
    rw [hvmm]
    exact hor

theorem Inv.acquire (hi : Inv s) (hsh : s.shim = some sh) (hl : sh.locked = false) :
    Inv { s.setIdentity ⟨sh.record, none, []⟩ with shim := some { sh with locked := true } } := by
  have hv := (hi.unlocked sh hsh hl).1
  have hno : s.NoLiveVmm := hi.noLiveVmm hsh fun r h => by rw [hv] at h; cases h
  exact .of_shim rfl rfl (hno.evidence rfl rfl) (fun r hr ha => absurd ha (hno r hr)) ⟨_, rfl, .inl rfl⟩

theorem Inv.spawnVmm (hi : Inv s) (hsh : s.shim = some sh) (hl : sh.locked = true) (hv : sh.vmm = none)
    {r : ProcessRecord} (hfresh : r ∉ s.recorded) :
    Inv { s with alive := r :: s.alive, shim := some { sh with vmm := some r } } := by
  have hno : s.NoLiveVmm := hi.noLiveVmm hsh fun r h => by rw [hv] at h; cases h
  have hno' : Sys.NoLiveVmm { s with alive := r :: s.alive, shim := some { sh with vmm := some r } } := by
    intro x hx ha
    rcases List.mem_cons.mp ha with rfl | ha
    · exact hfresh hx
    · exact hno x hx ha
  obtain ⟨i, hid, hor⟩ := hi.locked sh hsh hl
  refine .of_shim (by exact hl) rfl (hno'.evidence rfl rfl) (fun x hx ha => absurd ha (hno' x hx)) ⟨i, hid, .inl ?_⟩
  rw [hv, or_self] at hor
  exact hor

/-- Once the shim has recorded its VMM anywhere, that VMM is the only recorded one that can be alive. -/
theorem Inv.eq_vmm (hi : Inv s) (hsh : s.shim = some sh) {r x : ProcessRecord} (hv : sh.vmm = some r)
    (hx : x ∈ r :: s.recorded) (ha : x ∈ s.alive) : x = r := by
  rcases List.mem_cons.mp hx with h | h
  · exact h
  · have := hi.owned sh hsh x h ha
    rw [hv] at this
    exact (Option.some.inj this).symm

theorem Inv.recordVmmPid (hi : Inv s) (hsh : s.shim = some sh) {r : ProcessRecord} (hv : sh.vmm = some r) :
    Inv { s.setState { s.state with vmmPid := some r.pid } with recorded := r :: s.recorded } := by
  have hl := locked_of_vmm hi hsh hv
  obtain ⟨i, hid, hor⟩ := hi.locked sh hsh hl
  refine .of_shim hl hsh (fun x hx ha => ?_) (fun x hx ha => ?_) ⟨i, hid, hor⟩
  · obtain rfl := hi.eq_vmm hsh hv hx ha
    have hvmm : s.identityVmm = i.vmm := by rw [Sys.identityVmm, hid]; rfl
    have hrun : s.runtime.isSome = true := by
      cases hr : s.runtime with
      | none => simp [Sys.identity, hr] at hid
      | some d => rfl
    rcases hor with h | h
    · exact .inr ⟨hrun, hvmm.trans h, rfl⟩
    · exact .inl (hvmm.trans (h.trans hv))
  · obtain rfl := hi.eq_vmm hsh hv hx ha
    exact hv

/-- With the VMM named in `identity.json` the evidence is complete, whatever the state says. -/
theorem Inv.named (hi : Inv s) (hsh : s.shim = some sh) {r : ProcessRecord} (hv : sh.vmm = some r)
    (hrec : s'.recorded = r :: s.recorded) (halive : s'.alive = s.alive) (hid : s'.identityVmm = some r) :
    s'.Evidence := by
  intro x hx ha
  rw [hrec] at hx
  rw [halive] at ha
  obtain rfl := hi.eq_vmm hsh hv hx ha
  exact .inl hid

theorem Inv.shimStep (hi : Inv s) (hsh : s.shim = some sh) {e : ShimEvent} (h : shimStep s sh e = some s') : Inv s' := by
  cases e with
  | die =>
    cases h
    exact .of_noShim rfl hi.evidence
  | acquire =>
    simp only [Runtime.shimStep] at h
    split at h
    · cases h
    rename_i hl
    split at h
    · cases h
      exact hi.acquire hsh (by simpa using hl)
    · cases h
      exact .of_noShim rfl hi.evidence
  | spawnSidecar sidecar r =>
    simp only [Runtime.shimStep] at h
    split at h
    · rename_i hg
      cases h
      refine hi.sidecars hsh hg.1 hsh rfl (fun x hx ha => ?_) rfl rfl rfl
      rcases List.mem_cons.mp ha with rfl | ha
      · exact absurd hx hg.2.2
      · exact ha
    · cases h
  | sidecarGone sidecar =>
    simp only [Runtime.shimStep] at h
    split at h
    · rename_i hl
      cases h
      exact hi.sidecars hsh hl hsh rfl (fun _ _ ha => ha) rfl rfl rfl
    · cases h
  | spawnVmm r =>
    simp only [Runtime.shimStep] at h
    split at h
    · rename_i hg
      cases h
      exact hi.spawnVmm hsh hg.1 hg.2.1 hg.2.2.2
    · cases h
  | recordVmmPid =>
    simp only [Runtime.shimStep] at h
    split at h
    · rename_i r hv
      cases h
      exact hi.recordVmmPid hsh hv
    · cases h
  | publishVmm =>
    simp only [Runtime.shimStep] at h
    split at h
    · rename_i r hv
      cases h
      refine .of_shim (locked_of_vmm hi hsh hv) hsh (hi.named hsh hv rfl rfl rfl) (fun x hx ha => ?_)
        ⟨_, rfl, .inr hv.symm⟩
      obtain rfl := hi.eq_vmm hsh hv hx ha
      exact hv
    · cases h
  | writeStatus status degraded =>
    simp only [Runtime.shimStep] at h
    split at h
    · rename_i hg
      cases h
      exact .of_shim hg.1 hsh hi.evidence (hi.owned sh hsh) (hi.locked sh hsh hg.1)
    · cases h
  | finish status exit cleanup =>
    simp only [Runtime.shimStep] at h
    split at h
    · rename_i hg
      cases h
      have hno : s.NoLiveVmm := hi.noLiveVmm hsh fun r hv => by simpa [hv] using hg.2
      split
      · exact .of_noShim rfl (hno.evidence rfl rfl)
      · exact .of_noShim rfl (hno.evidence rfl rfl)
    · cases h
  | failRecoverable exit =>
    simp only [Runtime.shimStep] at h
    split at h
    · rename_i r hv
      cases h
      exact .of_noShim rfl (hi.named hsh hv rfl rfl rfl)
    · cases h
  | failAmbiguous exit =>
    simp only [Runtime.shimStep] at h
    split at h
    · cases h
      exact .of_noShim rfl hi.evidence
    · cases h

/-- The end of a process only removes an obligation. -/
theorem Inv.exit (hi : Inv s) (r : ProcessRecord) : Inv { s with alive := s.alive.erase r } where
  evidence := hi.evidence.shrink fun _ => List.mem_of_mem_erase
  owned sh h x hx ha := hi.owned sh h x hx (List.mem_of_mem_erase ha)
  unlocked := hi.unlocked
  locked := hi.locked

/-- **One step** that keeps the evidence keeps the invariant. -/
theorem Inv.step (hi : Inv s) {e : Event} (hok : EvidenceKept s e) (h : step name s e = some s') : Inv s' := by
  cases e with
  | shim e =>
    obtain ⟨sh, hsh, h⟩ := Option.bind_eq_some_iff.mp h
    exact hi.shimStep hsh h
  | exit r =>
    cases h
    exact hi.exit r
  | start p e =>
    obtain ⟨hfree, h⟩ := Option.ite_none_right_eq_some.mp h
    cases h
    exact hi.start hfree hok e
  | reconcile p =>
    obtain ⟨hfree, h⟩ := Option.ite_none_right_eq_some.mp h
    cases h
    exact hi.reconcileOp hfree hok
  | prune p =>
    obtain ⟨hfree, h⟩ := Option.ite_none_right_eq_some.mp h
    cases h
    exact hi.pruneRuntimeDir hfree hok
  | restore p =>
    obtain ⟨hfree, h⟩ := Option.ite_none_right_eq_some.mp h
    cases h
    exact hi.snapshotRestore hfree hok
  | abandon status lastExit =>
    obtain ⟨hfree, h⟩ := Option.ite_none_right_eq_some.mp h
    cases h
    exact .of_noShim hok.1 (hok.2.evidence rfl rfl)

end shim

/-- **No second VMM**: in every run whose steps keep the evidence, a start whose check passes found no VMM alive that an
earlier launch had recorded. -/
theorem startCheck_no_live_vmm {name : String} {s s₁ : Sys} {p : Probes} {e : StartEnd} {state : MachineState}
    (h : Reachable (step name) EvidenceKept Initial s) (hok : EvidenceKept s (.start p e))
    (hpass : startCheck name s p = (s₁, .ok state)) : s.NoLiveVmm := by
  have hi : Inv s := h.invariant (fun _ => Initial.inv) fun _ _ _ hinv hok hs => Inv.step hinv hok hs
  rw [startCheck_eq] at hpass
  cases hr : readReconciled s p with
  | error e => rw [hr] at hpass; cases hpass
  | ok x =>
    obtain ⟨s₂, live⟩ := x
    rw [hr] at hpass
    dsimp only at hpass
    obtain ⟨-, -, -, hno⟩ := @checkRead_cases name s₂ p live (hi.evidence.read hok hr)
    obtain ⟨-, halive, hrec⟩ := readReconciled_frame hr
    intro r hr' ha
    exact hno state (by rw [hpass]) r (hrec ▸ hr') (halive ▸ ha)

/-- A machine that was never started. -/
def neverStarted : Sys where
  state := ⟨.created, ⟨"ubuntu:24.04", none, none⟩, none, 3, none, none, none, [], "/run/m", none, [], [], none⟩
  runtime := none
  shim := none
  alive := []
  recorded := []

theorem neverStarted_initial : Initial neverStarted := ⟨rfl, rfl, rfl⟩

/-- Nothing listens on the sockets and no process dies of a signal. -/
def quiet : Probes := ⟨.refused, .refused, .refused, .refused, fun _ => false, "2026-01-01T00:00:00Z"⟩

/-- A launch up to the published identity of its VMM. -/
def launched (shim vmm : ProcessRecord) : List Event :=
  [.start quiet (.handedOff shim), .shim .acquire, .shim (.spawnVmm vmm), .shim .recordVmmPid, .shim .publishVmm]

/-- A machine whose VMM ended and whose shim cleaned up starts again. -/
theorem startCheck_no_live_vmm_restart : ∃ s s₁ state, Reachable (step "m") EvidenceKept Initial s ∧
    s.recorded ≠ [] ∧ startCheck "m" s quiet = (s₁, .ok state) ∧ s.NoLiveVmm := by
  have hrun : (run (step "m") neverStarted (launched ⟨10, 1⟩ ⟨11, 2⟩ ++ [.exit ⟨11, 2⟩,
      .shim (.finish .stopped ⟨"2026-01-01T00:00:01Z", none, none, .guestShutdown⟩ true)])).any (fun s =>
        !s.recorded.isEmpty && !s.rewrites quiet && (startCheck "m" s quiet).2.isOk) = true := by
    decide
  obtain ⟨s, hs, hcheck⟩ := (Option.any_eq_true _ _).mp hrun
  simp only [Bool.and_eq_true, Bool.not_eq_true'] at hcheck
  obtain ⟨⟨hrec, hrw⟩, hpass⟩ := hcheck
  obtain ⟨state, hstate⟩ := Res.exists_ok hpass
  have hmeet : StepsMeet (step "m") EvidenceKept neverStarted (launched ⟨10, 1⟩ ⟨11, 2⟩ ++ [.exit ⟨11, 2⟩,
      .shim (.finish .stopped ⟨"2026-01-01T00:00:01Z", none, none, .guestShutdown⟩ true)]) :=
    .cons rfl (fun _ _ hr => by cases hr) (.cons rfl trivial (.cons rfl trivial (.cons rfl trivial (.cons rfl trivial
      (.cons rfl trivial (.cons rfl trivial trivial))))))
  have hr := (Reachable.start neverStarted_initial).run hmeet hs
  have hok : EvidenceKept s (.start quiet .emptied) := fun h => by rw [hrw] at h; cases h
  have heq : startCheck "m" s quiet = ((startCheck "m" s quiet).1, .ok state) := by rw [← hstate]
  exact ⟨s, _, state, hr, by simpa using hrec, heq, startCheck_no_live_vmm hr hok heq⟩

/-- A launch fails with its VMM alive and not listening, the shim retains the evidence, a prune deletes the runtime
directory of the failed machine, and the next start passes. -/
theorem pruned_evidence_lost : ¬ ∀ name s p s₁ state, Reachable (step name) anyStep Initial s →
    startCheck name s p = (s₁, .ok state) → s.NoLiveVmm := by
  intro h
  have hrun : (run (step "m") neverStarted (launched ⟨10, 1⟩ ⟨11, 2⟩ ++ [.shim (.failRecoverable
      ⟨"2026-01-01T00:00:01Z", none, none, .failure "not ready; VMM recovery evidence retained"⟩),
      .prune quiet])).any (fun s =>
        (startCheck "m" s quiet).2.isOk && s.recorded.contains ⟨11, 2⟩ && s.alive.contains ⟨11, 2⟩) = true := by
    decide
  obtain ⟨s, hs, hcheck⟩ := (Option.any_eq_true _ _).mp hrun
  simp only [Bool.and_eq_true, List.contains_iff_mem] at hcheck
  obtain ⟨⟨hpass, hrec⟩, halive⟩ := hcheck
  obtain ⟨state, hstate⟩ := Res.exists_ok hpass
  have hr := reachable_of_run neverStarted_initial hs
  exact h "m" s quiet _ state hr (by rw [← hstate]) _ hrec halive

end Firestone.Machine.Runtime
