import Firestone.Error

/-!
# Machine state and its reconciliation

The contents of `state.json`, and the two pure functions that bring them in line with what is observed of the machine's
processes: `reconcile` decides on the report and on a rewrite, `reconciledState` applies the rewrite.
-/

namespace Firestone

inductive Arch
  | x86_64 | aarch64
  deriving DecidableEq, Repr

/-- Lifecycle status of a machine. -/
inductive MachineStatus
  | created | starting | running | stopping | stopped | failed
  deriving DecidableEq, Repr

def MachineStatus.isActive : MachineStatus → Bool
  | .starting | .running | .stopping => true
  | .created | .stopped | .failed => false

/-- The base image of a machine. Its id and digest become available together after the pull. -/
structure StateImage where
  ref : String
  id : Option String
  sha256 : Option String
  deriving DecidableEq, Repr

/-- Why the previous run ended. -/
inductive ExitReason
  | guestShutdown | stale | hostReboot | failure (reason : String)
  deriving DecidableEq, Repr

def ExitReason.asStr : ExitReason → String
  | .guestShutdown => "guest shutdown"
  | .stale => "stale"
  | .hostReboot => "host reboot"
  | .failure reason => reason

structure LastExit where
  exitAt : String
  code : Option Int
  signal : Option Int
  reason : ExitReason
  deriving DecidableEq, Repr

/-- The contents of one `state.json`. -/
structure MachineState where
  status : MachineStatus
  image : StateImage
  mac : Option String
  cid : Nat
  instanceId : Option String
  shimPid : Option Nat
  vmmPid : Option Nat
  sidecarPids : List (String × Nat)
  runtimeDir : String
  startedAt : Option String
  forwards : List String
  degraded : List String
  lastExit : Option LastExit
  deriving DecidableEq, Repr

def invalidState (message : String) : FirestoneError :=
  (FirestoneError.new .generic ("invalid machine state: " ++ message)).withHint
    "do not write state until the internal invariant is restored"

def StateImage.validate (image : StateImage) : Res Unit :=
  if image.ref = "" then .error (invalidState "image.ref cannot be empty")
  else
    match image.id, image.sha256 with
    | none, none => .ok ()
    | some id, some sha256 =>
      if id ≠ "" ∧ sha256 ≠ "" then .ok () else .error (invalidState "image.id and image.sha256 cannot be empty")
    | _, _ => .error (invalidState "image.id and image.sha256 must be absent or present together")

def LastExit.validate (exit : LastExit) : Res Unit :=
  if exit.code.isSome ∧ exit.signal.isSome then
    .error (invalidState "last_exit cannot contain both a code and a signal")
  else if exit.reason = .failure "" then .error (invalidState "last_exit.reason cannot be empty")
  else .ok ()

/-- `MachineState::validate`, made before every write and after every read. -/
def MachineState.validate (s : MachineState) : Res Unit := do
  s.image.validate
  match s.lastExit with
  | some exit => exit.validate
  | none => .ok ()
  if s.shimPid = some 0 ∨ s.vmmPid = some 0 ∨ (s.sidecarPids.any fun x => x.2 == 0) then
    .error (invalidState "process ids in machine state must be nonzero")
  else .ok ()

/-- `write_final_state`: every process id and marker goes, the exit is recorded. -/
def finalState (s : MachineState) (status : MachineStatus) (exit : LastExit) : MachineState :=
  { s with
    status := status, shimPid := none, vmmPid := none, sidecarPids := [], startedAt := none, degraded := [],
    lastExit := some exit }

/-- What is observed of a machine's processes. -/
structure LivenessObservation where
  vmmPing : Bool
  shimVerified : Bool
  runtimeDirExists : Bool
  deriving DecidableEq, Repr

/-- Whether a VMM that answers still has its shim. -/
inductive Supervision
  | supervised | unsupervised
  deriving DecidableEq, Repr

/-- The status to report, and the exit reason of a rewrite to `stopped` where one is needed. -/
structure ReconcileReport where
  status : MachineStatus
  supervision : Option Supervision
  rewrite : Option ExitReason
  deriving DecidableEq, Repr

/-- The state a reader works with. -/
structure LiveMachineState where
  state : MachineState
  supervision : Option Supervision
  deriving DecidableEq, Repr

/-- `running` is only reported after an answer of the VMM. With a verified shim and no answer, a recorded stop or
failure stands and any other status is reported as `starting`. Only an active status without both is rewritten. -/
def reconcile (storedStatus : MachineStatus) (o : LivenessObservation) : ReconcileReport :=
  if o.vmmPing then ⟨.running, some (if o.shimVerified then .supervised else .unsupervised), none⟩
  else if o.shimVerified then
    let status := match storedStatus with
      | .stopping => .stopping
      | .failed => .failed
      | .created | .starting | .running | .stopped => .starting
    ⟨status, none, none⟩
  else if storedStatus.isActive then
    ⟨.stopped, none, some (if o.runtimeDirExists then .stale else .hostReboot)⟩
  else ⟨storedStatus, none, none⟩

/-- The rewrite of a report: the process ids go with the status. -/
def reconciledState (state : MachineState) (report : ReconcileReport) (reconciledAt : String) : Option MachineState :=
  report.rewrite.map fun reason =>
    { state with
      status := .stopped, shimPid := none, vmmPid := none, sidecarPids := [], startedAt := none, degraded := [],
      lastExit := some ⟨reconciledAt, none, none, reason⟩ }

/-- The state that a reader goes on with: the rewritten one, or else the stored one under the reported status. -/
def MachineState.reconciled (s : MachineState) (o : LivenessObservation) (reconciledAt : String) : MachineState :=
  let report := reconcile s.status o
  (reconciledState s report reconciledAt).getD { s with status := report.status }

section reconcile

variable {st : MachineStatus} {o : LivenessObservation}

/-- A verified shim is never overruled. -/
theorem reconcile_verified (h : o.shimVerified = true) : (reconcile st o).rewrite = none := by
  unfold reconcile
  split
  · rfl
  · rfl

theorem reconcile_starting_active (h : o.shimVerified = true) : (reconcile .starting o).status.isActive = true := by
  unfold reconcile
  split
  · rfl
  · rfl

theorem reconcile_rewrite_active {reason : ExitReason} (h : (reconcile st o).rewrite = some reason) :
    st.isActive = true := by
  unfold reconcile at h
  split at h
  · cases h
  split at h
  · cases h
  split at h
  · assumption
  · cases h

/-- What a report says, case by case. -/
theorem reconcile_cases (st : MachineStatus) (o : LivenessObservation) :
    (o.vmmPing = true ∧ (reconcile st o).status = .running ∧ (reconcile st o).rewrite = none) ∨
    (o.vmmPing = false ∧ o.shimVerified = true ∧ (reconcile st o).status ≠ .running ∧ (reconcile st o).rewrite = none) ∨
    (o.vmmPing = false ∧ o.shimVerified = false ∧ st.isActive = true ∧ (reconcile st o).status = .stopped ∧
      ∃ reason, (reconcile st o).rewrite = some reason ∧ reason ≠ .failure "") ∨
    (o.vmmPing = false ∧ o.shimVerified = false ∧ st.isActive = false ∧ (reconcile st o).status = st ∧
      (reconcile st o).rewrite = none) := by
  obtain ⟨ping, verified, exists_⟩ := o
  cases ping with
  | true => exact .inl ⟨rfl, rfl, rfl⟩
  | false =>
    cases verified with
    | true => exact .inr (.inl ⟨rfl, rfl, by cases st <;> nofun, by cases st <;> rfl⟩)
    | false =>
      right; right
      cases hactive : st.isActive with
      | true =>
        left
        have hreport : reconcile st ⟨false, false, exists_⟩ =
            ⟨.stopped, none, some (if exists_ then .stale else .hostReboot)⟩ := by
          simp [reconcile, hactive]
        rw [hreport]
        exact ⟨rfl, rfl, rfl, rfl, _, rfl, by cases exists_ <;> nofun⟩
      | false =>
        right
        have hreport : reconcile st ⟨false, false, exists_⟩ = ⟨st, none, none⟩ := by
          simp [reconcile, hactive]
        rw [hreport]
        exact ⟨rfl, rfl, rfl, rfl, rfl⟩

/-- Reporting a status again gives the same. -/
theorem reconcile_again (st : MachineStatus) (o : LivenessObservation) :
    (reconcile (reconcile st o).status o).rewrite = none ∧
      (reconcile (reconcile st o).status o).status = (reconcile st o).status := by
  obtain ⟨ping, verified, exists_⟩ := o
  cases st <;> cases ping <;> cases verified <;> exact ⟨rfl, rfl⟩

variable {s : MachineState}

theorem validate_stopped (hvalid : s.validate = .ok ()) {exit : LastExit} (hexit : exit.validate = .ok ()) :
    MachineState.validate { s with
      status := .stopped, shimPid := none, vmmPid := none, sidecarPids := [], startedAt := none, degraded := [],
      lastExit := some exit } = .ok () := by
  obtain ⟨_, himage, _⟩ := Res.bind_ok hvalid
  rw [MachineState.validate]
  simp only [himage, hexit]
  rfl

theorem reconciled_of_none (h : (reconcile s.status o).rewrite = none) (reconciledAt : String) :
    s.reconciled o reconciledAt = { s with status := (reconcile s.status o).status } := by
  rw [MachineState.reconciled, reconciledState, h]
  rfl

theorem reconciled_of_some {reason : ExitReason} (h : (reconcile s.status o).rewrite = some reason) (reconciledAt : String) :
    s.reconciled o reconciledAt = { s with
      status := .stopped, shimPid := none, vmmPid := none, sidecarPids := [], startedAt := none, degraded := [],
      lastExit := some ⟨reconciledAt, none, none, reason⟩ } := by
  rw [MachineState.reconciled, reconciledState, h]
  rfl

theorem reconciled_status (s : MachineState) (o : LivenessObservation) (reconciledAt : String) :
    (s.reconciled o reconciledAt).status = (reconcile s.status o).status := by
  cases hrewrite : (reconcile s.status o).rewrite with
  | none => rw [reconciled_of_none hrewrite]
  | some reason =>
    rw [reconciled_of_some hrewrite]
    rcases reconcile_cases s.status o with ⟨_, _, hnone⟩ | ⟨_, _, _, hnone⟩ | ⟨_, _, _, hstopped, _⟩ | ⟨_, _, _, _, hnone⟩
    · cases hrewrite.symm.trans hnone
    · cases hrewrite.symm.trans hnone
    · exact hstopped.symm
    · cases hrewrite.symm.trans hnone

/-- The state after a reconciliation asks for no rewrite, and is what a second one gives. -/
theorem reconciled_again (s : MachineState) (o : LivenessObservation) (reconciledAt again : String) :
    (reconcile (s.reconciled o reconciledAt).status o).rewrite = none ∧
      (s.reconciled o reconciledAt).reconciled o again = s.reconciled o reconciledAt := by
  obtain ⟨hrewrite, hstatus⟩ := reconcile_again s.status o
  rw [← reconciled_status s o reconciledAt] at hrewrite hstatus
  refine ⟨hrewrite, ?_⟩
  rw [reconciled_of_none hrewrite, hstatus]

theorem reconciled_valid (hvalid : s.validate = .ok ()) (o : LivenessObservation) (reconciledAt : String) :
    (s.reconciled o reconciledAt).validate = .ok () := by
  cases hrewrite : (reconcile s.status o).rewrite with
  | none =>
    rw [reconciled_of_none hrewrite]
    exact hvalid
  | some reason =>
    rw [reconciled_of_some hrewrite]
    refine validate_stopped hvalid ?_
    have hreason : reason ≠ .failure "" := by
      rcases reconcile_cases s.status o with ⟨_, _, hnone⟩ | ⟨_, _, _, hnone⟩ | ⟨_, _, _, _, r, hr, hne⟩ | ⟨_, _, _, _, hnone⟩
      · cases hrewrite.symm.trans hnone
      · cases hrewrite.symm.trans hnone
      · cases hrewrite.symm.trans hr
        exact hne
      · cases hrewrite.symm.trans hnone
    rw [LastExit.validate, if_neg (by simp), if_neg hreason]

/-- **Reconciliation** keeps a valid state valid and what identifies the machine as it is. Made again it changes nothing,
`running` is an answer of the VMM, and a rewrite is an active status without VMM and shim. -/
theorem reconciled_safe (hvalid : s.validate = .ok ()) (o : LivenessObservation) (reconciledAt : String) :
    (s.reconciled o reconciledAt).validate = .ok () ∧
    (∀ s', reconciledState s (reconcile s.status o) reconciledAt = some s' → s' = s.reconciled o reconciledAt) ∧
    (∃ status shimPid vmmPid sidecarPids startedAt degraded lastExit, s.reconciled o reconciledAt =
      { s with status, shimPid, vmmPid, sidecarPids, startedAt, degraded, lastExit }) ∧
    (reconcile (s.reconciled o reconciledAt).status o).rewrite = none ∧
    (∀ again, (s.reconciled o reconciledAt).reconciled o again = s.reconciled o reconciledAt) ∧
    ((reconcile s.status o).status = .running → o.vmmPing = true) ∧
    ((reconcile s.status o).rewrite.isSome = true ↔
      s.status.isActive = true ∧ o.vmmPing = false ∧ o.shimVerified = false) := by
  refine ⟨reconciled_valid hvalid o reconciledAt, ?_, ?_, (reconciled_again s o reconciledAt reconciledAt).1,
    fun again => (reconciled_again s o reconciledAt again).2, ?_, ?_⟩
  · intro s' hs'
    rw [MachineState.reconciled, hs', Option.getD_some]
  · cases hrewrite : (reconcile s.status o).rewrite with
    | none => exact ⟨_, _, _, _, _, _, _, reconciled_of_none hrewrite reconciledAt⟩
    | some reason => exact ⟨_, _, _, _, _, _, _, reconciled_of_some hrewrite reconciledAt⟩
  · intro hrunning
    rcases reconcile_cases s.status o with ⟨hping, _⟩ | ⟨_, _, hne, _⟩ | ⟨_, _, _, hstopped, _⟩ | ⟨_, _, hactive, hst, _⟩
    · exact hping
    · exact absurd hrunning hne
    · cases hrunning.symm.trans hstopped
    · -- a stored `running` is active
      rw [← hst, hrunning] at hactive
      cases hactive
  · rcases reconcile_cases s.status o with ⟨hping, _, hr⟩ | ⟨hping, hshim, _, hr⟩ | ⟨hping, hshim, hactive, _, _, hr, _⟩ |
      ⟨hping, hshim, hactive, _, hr⟩
    · simp [hr, hping]
    · simp [hr, hshim]
    · simp [hr, hping, hshim, hactive]
    · simp [hr, hactive]

/-- A running machine whose processes are gone. -/
def lostMachine : MachineState where
  status := .running
  image := ⟨"ubuntu:24.04", none, none⟩
  mac := none
  cid := 3
  instanceId := none
  shimPid := some 7
  vmmPid := some 8
  sidecarPids := [("passt", 9)]
  runtimeDir := "/run/web"
  startedAt := some "2026-08-28T09:00:00Z"
  forwards := []
  degraded := []
  lastExit := none

theorem reconciled_safe_lostMachine :
    (lostMachine.reconciled ⟨false, false, true⟩ "2026-08-28T10:00:00Z").validate = .ok () ∧
      (reconcile lostMachine.status ⟨false, false, true⟩).rewrite.isSome = true := by
  obtain ⟨hvalid, -, -, -, -, -, hrewrite⟩ :=
    reconciled_safe (s := lostMachine) (by decide) ⟨false, false, true⟩ "2026-08-28T10:00:00Z"
  exact ⟨hvalid, hrewrite.mpr ⟨rfl, rfl, rfl⟩⟩

end reconcile

end Firestone
