import Firestone.Shim.Adoption

/-!
# The start of a machine

A start makes sure that nothing of an earlier launch is alive, empties the runtime directory, and hands the state over to a
shim: `starting`, with the pid of the shim.

* `ensureRecordedVmmAbsent`, `ensureNoLiveRuntime` — the guard. It relies on `identity.json`.
* `prepareStart`, `launchPrepared`, `start` — the start of a machine up to its shim.
* `ensureNoLiveRuntime_empty` — where `identity.json` records every live process, the guard passes only if there is none.
* `start_files`, `start_prepared` — a start keeps the invariant, and what it leaves for the shim is a prepared launch.
-/

namespace Firestone.Shim

open Firestone.Lib Prog

/-! ## The guard -/

/-- The recorded VMM is not alive. Its pid is what the state may still hold. -/
def recordedVmmAbsent (name : String) : Option ProcessRecord → ShimProg (Option Nat)
  | none => pure none
  | some record => do
    if ← recordedProcessAlive record then
      verifyProcess record
      fail ((FirestoneError.new .alreadyRunning ("machine `" ++ name ++ "` has a verified live or hung VMM")).withHint
        "recover or stop the recorded VMM; do not start a duplicate")
    else pure (some record.pid)

/-- A recorded sidecar that is still alive is terminated. -/
def endStaleSidecar (x : String × ProcessRecord) : ShimProg Unit := do
  if ← recordedProcessAlive x.2 then
    verifyProcess x.2
    match ← attempt (terminateRecoveredProcess x.2) with
    | .ok _ => pure ()
    | .error e =>
      fail (.new e.kind ("cannot terminate stale verified sidecar `" ++ x.1 ++ "`: " ++ e.message))
  else pure ()

/-- A sidecar pid of the state is that of a recorded sidecar, which is not alive. -/
def recordedSidecarAbsent (name : String) (identity : Option ProcessIdentity) (x : String × Nat) : ShimProg Unit := do
  match (identity.bind fun i => i.sidecars.lookup x.1).filter fun record => record.pid = x.2 with
  | none =>
    fail ((FirestoneError.new .conflict ("machine `" ++ name ++ "` retains sidecar pid " ++ toString x.2 ++
      " without matching absence evidence")).withHint "preserve the runtime directory and recover the process identity")
  | some record =>
    if ← recordedProcessAlive record then
      fail (.new .conflict ("verified sidecar `" ++ x.1 ++ "` pid " ++ toString x.2 ++ " remained alive"))
    else pure ()

/-- The processes that `identity.json` records are not alive, or are terminated. -/
def identityAbsent (name : String) (identity : Option ProcessIdentity) : ShimProg (Option Nat) := do
  let dead ← recordedVmmAbsent name (identity.bind ProcessIdentity.vmm)
  ((identity.map ProcessIdentity.sidecars).getD []).forM endStaleSidecar
  return dead

/-- The pids of the state are those of recorded processes. -/
def stateAbsent (name : String) (identity : Option ProcessIdentity) (dead : Option Nat) : ShimProg Unit := do
  let _ ← call
  let st := (← get).stateFile
  if st.vmmPid.isSome ∧ st.vmmPid ≠ dead then
    fail ((FirestoneError.new .conflict ("machine `" ++ name ++
      "` retains a VMM pid without matching absence evidence")).withHint
        "recover the process identity before starting another VMM")
  else st.sidecarPids.forM (recordedSidecarAbsent name identity)

/-- `ensure_recorded_vmm_absent`. -/
def ensureRecordedVmmAbsent (name : String) : ShimProg Unit := do
  let _ ← call
  let identity := (← get).identityFile
  let dead ← identityAbsent name identity
  stateAbsent name identity dead

/-- The API socket of a VMM is not answered. -/
def ensureApiSilent (name : String) : ShimProg Unit := do
  let api ← interact
  match api.error with
  | some _ =>
    fail ((FirestoneError.new .conflict "cannot prove stale VMM socket").withHint
      "inspect the existing runtime directory before retrying")
  | none =>
    if api.yes then fail (.new .alreadyRunning ("machine `" ++ name ++ "` already has a live VMM"))
    else pure ()

/-- `ensure_no_live_runtime`. Without a runtime directory nothing is asked. -/
def ensureNoLiveRuntime (name : String) : ShimProg Unit := do
  let _ ← call
  match (← get).runtime with
  | none => pure ()
  | some _ =>
    match (← interact).error with
    | none => fail (.new .alreadyRunning ("machine `" ++ name ++ "` already has a live shim"))
    | some e =>
      if e.kind = .notRunning then
        ensureRecordedVmmAbsent name
        ensureApiSilent name
      else
        fail ((FirestoneError.new .conflict "cannot prove stale shim socket").withHint
          "inspect the existing runtime directory before retrying")

/-! ## The start -/

/-- `clear_machine_runtime_dir` with the directory itself. -/
def removeRuntime : ShimProg Unit := do
  let _ ← call
  modify fun w => { w with runtime := none }
  let _ ← call

/-- `write_from_locked_action` of the changed state. -/
def writeLocked (f : MachineState → MachineState) : ShimProg Unit := do
  let st := f (← get).stateFile
  ofExcept st.validate
  let _ ← call
  modify fun w => { w with stateFile := st }
  let _ ← call

/-- The runtime directory is emptied and filled for the launch. The calls stand for the image, the disk, the boot input and
the plans. -/
def prepareRuntime : ShimProg Unit := do
  let _ ← call
  modify fun w => { w with runtime := some ⟨none⟩ }
  let _ ← call
  onError (do let _ ← call) fun _ => removeRuntime

/-- `prepare_start`. -/
def prepareStart (name : String) : ShimProg MachineStatus := do
  let status := (← get).stateFile.status
  if status.isActive then
    fail ((FirestoneError.new .alreadyRunning ("machine `" ++ name ++ "` is already active")).withHint
      ("use `firestone stop " ++ name ++ "` before starting it again"))
  else
    ensureNoLiveRuntime name
    prepareRuntime
    return status

/-- The state that a start hands over. -/
def startingState (shim : Option Nat) (startedAt : String) (st : MachineState) : MachineState :=
  { st with
    status := .starting, shimPid := shim, vmmPid := none, sidecarPids := [], degraded := [], startedAt := some startedAt }

/-- `rollback_before_shim`. -/
def rollbackBeforeShim (previous : MachineStatus) (e : FirestoneError) : ShimProg Unit := do
  let a ← interact
  writeLocked fun st => { st with
    status := previous, shimPid := none, vmmPid := none, startedAt := none, sidecarPids := [], degraded := [],
    lastExit := some (lastExit a.text none (.failure e.message)) }
  removeRuntime

/-- `launch_prepared_cancellable`, up to the second write of the state. -/
def launchPrepared (pid : Nat) (startedAt : String) (previous : MachineStatus) : ShimProg Unit := do
  onError (do
    let _ ← call
    writeLocked (startingState none startedAt)) fun _ => removeRuntime
  onError (do
    let _ ← call
    writeLocked (startingState (some pid) startedAt)) (rollbackBeforeShim previous)

/-- A start up to the point where the shim runs on its own. -/
def start (name : String) (pid : Nat) (startedAt : String) : ShimProg Unit := do
  let previous ← prepareStart name
  launchPrepared pid startedAt previous

variable {plan : LaunchPlan} {name : String}

/-! ## What the guard leaves alone -/

/-- Processes end, and nothing else that matters to a start changes. -/
structure OnlyEnds (w w' : World) : Prop where
  alive : ∀ p ∈ w'.alive, p ∈ w.alive
  stateFile : w'.stateFile = w.stateFile
  runtime : w'.runtime = w.runtime
  missed : w'.missed = w.missed
  unpublished : w'.unpublished = w.unpublished

instance : Std.Refl OnlyEnds := ⟨fun _ => ⟨fun _ h => h, rfl, rfl, rfl, rfl⟩⟩

instance : IsTrans World OnlyEnds := ⟨fun _ _ _ h h' =>
  ⟨fun p hp => h.alive p (h'.alive p hp), h'.stateFile.trans h.stateFile, h'.runtime.trans h.runtime,
    h'.missed.trans h.missed, h'.unpublished.trans h.unpublished⟩⟩

theorem FilesInv.onlyEnds {w w' : World} (h : FilesInv plan w) (hends : OnlyEnds w w') : FilesInv plan w' where
  unique p hp q hq := h.unique p (hends.alive p hp) q (hends.alive q hq)
  planned p hp := h.planned p (hends.alive p hp)
  file := by
    rw [hends.stateFile]
    exact h.file.mono ⟨fun _ h => h, fun _ h => h⟩ hends.alive
  identityFile i hi := by
    rw [World.identityFile, hends.runtime] at hi
    exact h.identityFile i hi
  kept hnone := by
    rw [World.identityFile, hends.runtime] at hnone
    refine (h.kept hnone).imp (fun hempty => ?_) fun hlost => ?_
    · exact List.eq_nil_iff_forall_not_mem.mpr fun p hp => List.not_mem_nil (hempty ▸ hends.alive p hp)
    · rwa [World.lost, hends.missed, hends.unpublished]

theorem RecordGone.onlyEnds {record : ProcessRecord} {w w' : World} (h : RecordGone record w) (hends : OnlyEnds w w') :
    RecordGone record w' :=
  fun p hp => h p (hends.alive p hp)

section instances

set_option synthInstance.maxSize 2000

instance interact_ends : Keeps OnlyEnds interact := by
  refine ⟨fun w => ?_⟩
  rw [interact_snd]
  exact ⟨fun p hp => (List.mem_filter.mp hp).1, rfl, rfl, rfl, rfl⟩

instance call_ends : Keeps OnlyEnds call := by
  have : ∀ a : Answer, Keeps OnlyEnds (match a.error with
      | some e => fail e
      | none => pure a : ShimProg Answer) := fun a => by cases a.error <;> infer_instance
  unfold call
  infer_instance

instance recordedProcessAlive_ends (record : ProcessRecord) : Keeps OnlyEnds (recordedProcessAlive record) := by
  unfold recordedProcessAlive
  infer_instance

instance verifyProcess_ends (record : ProcessRecord) : Keeps OnlyEnds (verifyProcess record) := by
  unfold verifyProcess
  infer_instance

instance terminateRecoveredProcess_ends (record : ProcessRecord) : Keeps OnlyEnds (terminateRecoveredProcess record) := by
  have : Keeps OnlyEnds (signalVerifiedTree record) := by
    unfold signalVerifiedTree
    infer_instance
  have : Keeps OnlyEnds (waitForRecordExit record) := by
    unfold waitForRecordExit
    infer_instance
  unfold terminateRecoveredProcess
  infer_instance

instance recordedVmmAbsent_ends (record : Option ProcessRecord) : Keeps OnlyEnds (recordedVmmAbsent name record) := by
  cases record <;> (unfold recordedVmmAbsent; infer_instance)

instance endStaleSidecar_ends (x : String × ProcessRecord) : Keeps OnlyEnds (endStaleSidecar x) := by
  have : ∀ r : Except FirestoneError Unit, Keeps OnlyEnds (match r with
      | .ok _ => pure ()
      | .error e => fail (.new e.kind ("cannot terminate stale verified sidecar `" ++ x.1 ++ "`: " ++ e.message)) :
        ShimProg Unit) := by
    rintro (e | _) <;> infer_instance
  unfold endStaleSidecar
  infer_instance

instance recordedSidecarAbsent_ends (identity : Option ProcessIdentity) (x : String × Nat) :
    Keeps OnlyEnds (recordedSidecarAbsent name identity x) := by
  unfold recordedSidecarAbsent
  split <;> infer_instance

instance identityAbsent_ends (identity : Option ProcessIdentity) : Keeps OnlyEnds (identityAbsent name identity) := by
  unfold identityAbsent
  infer_instance

instance stateAbsent_ends (identity : Option ProcessIdentity) (dead : Option Nat) :
    Keeps OnlyEnds (stateAbsent name identity dead) := by
  unfold stateAbsent
  infer_instance

instance ensureRecordedVmmAbsent_ends : Keeps OnlyEnds (ensureRecordedVmmAbsent name) := by
  unfold ensureRecordedVmmAbsent
  infer_instance

instance ensureApiSilent_ends : Keeps OnlyEnds (ensureApiSilent name) := by
  refine Keeps.bind inferInstance fun api => ?_
  cases api.error <;> infer_instance

instance ensureNoLiveRuntime_ends : Keeps OnlyEnds (ensureNoLiveRuntime name) := by
  refine Keeps.bind inferInstance fun _ => Keeps.bind inferInstance fun w => ?_
  cases w.runtime with
  | none => infer_instance
  | some _ =>
    refine Keeps.bind inferInstance fun a => ?_
    cases a.error <;> infer_instance

end instances

/-! ## What the guard proves -/

theorem recordedVmmAbsent_gone {record : ProcessRecord} {dead : Option Nat} {w w' : World}
    (h : recordedVmmAbsent name (some record) w = (.ok dead, w')) : RecordGone record w' := by
  obtain ⟨alive, u, halive, h⟩ := bind_eq_ok.mp h
  cases alive with
  | true =>
    obtain ⟨_, v, -, h⟩ := bind_eq_ok.mp h
    cases h
  | false =>
    cases h
    exact recordedProcessAlive_gone halive

theorem endStaleSidecar_gone {x : String × ProcessRecord} {w w' : World} (h : endStaleSidecar x w = (.ok (), w')) :
    RecordGone x.2 w' := by
  obtain ⟨alive, u, halive, h⟩ := bind_eq_ok.mp h
  cases alive with
  | true =>
    obtain ⟨_, v, -, h⟩ := bind_eq_ok.mp h
    obtain ⟨r, t, hr, h⟩ := bind_eq_ok.mp h
    rcases attempt_eq_ok.mp hr with ⟨_, rfl, hend⟩ | ⟨e, rfl, -⟩
    · cases h
      exact terminateRecoveredProcess_gone hend
    · cases h
  | false =>
    cases h
    exact recordedProcessAlive_gone halive

/-- Nothing that the identity records is alive. -/
def IdentityGone (i : ProcessIdentity) (w : World) : Prop :=
  (∀ record, i.vmm = some record → RecordGone record w) ∧ ∀ x ∈ i.sidecars, RecordGone x.2 w

theorem identityAbsent_gone {i : ProcessIdentity} {dead : Option Nat} {w w' : World}
    (h : identityAbsent name (some i) w = (.ok dead, w')) : IdentityGone i w' := by
  obtain ⟨d, u, hvmm, h⟩ := bind_eq_ok.mp h
  obtain ⟨_, v, hsidecars, h⟩ := bind_eq_ok.mp h
  cases h
  have hends : OnlyEnds u w' := (inferInstance : Keeps OnlyEnds (i.sidecars.forM endStaleSidecar)).run hsidecars
  constructor
  · intro record hrecord
    rw [Option.bind_some, hrecord] at hvmm
    exact (recordedVmmAbsent_gone hvmm).onlyEnds hends
  · exact forM_eq_ok_all (g := endStaleSidecar) (P := fun x => RecordGone x.2) (R := OnlyEnds)
      (fun _ _ _ h => endStaleSidecar_gone h) (fun _ _ _ hR h => h.onlyEnds hR) hsidecars

/-- Every live process is in `identity.json`, if there is one. -/
def Recorded (w : World) : Prop :=
  ∀ i, w.identityFile = some i → ∀ p ∈ w.alive, i.vmm = some p.record ∨ ∃ name, (name, p.record) ∈ i.sidecars

/-- Where `identity.json` records every live process, the guard passes only if there is none. -/
theorem ensureNoLiveRuntime_empty {w w' : World} (h : FilesInv plan w) (hlost : ¬w.lost) (hrecorded : Recorded w)
    (hrun : ensureNoLiveRuntime name w = (.ok (), w')) : w'.alive = [] := by
  have hends : OnlyEnds w w' := ensureNoLiveRuntime_ends.run hrun
  cases hi : w.identityFile with
  | none =>
    have hempty : w.alive = [] := (h.kept hi).resolve_right hlost
    exact List.eq_nil_iff_forall_not_mem.mpr fun p hp => List.not_mem_nil (hempty ▸ hends.alive p hp)
  | some i =>
    obtain ⟨_, u₁, h₁, hrun⟩ := bind_eq_ok.mp hrun
    obtain ⟨_, u₂, hget, hrun⟩ := bind_eq_ok.mp hrun
    cases hget
    have hends₁ : OnlyEnds w u₁ := call_ends.run h₁
    have hruntime : u₁.runtime = some ⟨some i⟩ := by
      rw [hends₁.runtime]
      obtain ⟨r, hr, hri⟩ := Option.bind_eq_some_iff.mp hi
      rw [hr, ← hri]
    rw [hruntime] at hrun
    obtain ⟨a, u₃, h₃, hrun⟩ := bind_eq_ok.mp hrun
    have hends₃ : OnlyEnds u₁ u₃ := interact_ends.run h₃
    cases he : a.error with
    | none =>
      rw [he] at hrun
      cases hrun
    | some e =>
      rw [he] at hrun
      dsimp only at hrun
      split at hrun
      · obtain ⟨_, u₄, h₄, hrun⟩ := bind_eq_ok.mp hrun
        have hends₄ : OnlyEnds u₄ w' := ensureApiSilent_ends.run hrun
        obtain ⟨_, u₅, h₅, h₄⟩ := bind_eq_ok.mp h₄
        obtain ⟨_, u₆, hget, h₄⟩ := bind_eq_ok.mp h₄
        cases hget
        have hends₅ : OnlyEnds u₃ u₅ := call_ends.run h₅
        have hi₅ : u₅.identityFile = some i := by
          rw [World.identityFile, hends₅.runtime, hends₃.runtime, hruntime]
          rfl
        rw [hi₅] at h₄
        obtain ⟨dead, u₇, h₇, h₄⟩ := bind_eq_ok.mp h₄
        have hends₇ : OnlyEnds u₇ u₄ := (stateAbsent_ends _ _).run h₄
        obtain ⟨hvmm, hsidecars⟩ := identityAbsent_gone h₇
        refine List.eq_nil_iff_forall_not_mem.mpr fun p hp => ?_
        have hp₇ : p ∈ u₇.alive := hends₇.alive p (hends₄.alive p hp)
        rcases hrecorded i hi p (hends.alive p hp) with hp' | ⟨sidecar, hp'⟩
        · exact hvmm _ hp' p hp₇ rfl
        · exact hsidecars _ hp' p hp₇ rfl
      · cases hrun

/-! ## What a start keeps -/

/-- What a start does once the guard has passed: processes end, and an identity that is there was there before. -/
structure Clearing (w w' : World) : Prop where
  alive : ∀ p ∈ w'.alive, p ∈ w.alive
  identityFile : ∀ i, w'.identityFile = some i → w.identityFile = some i

instance : Std.Refl Clearing := ⟨fun _ => ⟨fun _ h => h, fun _ h => h⟩⟩

instance : IsTrans World Clearing := ⟨fun _ _ _ h h' =>
  ⟨fun p hp => h.alive p (h'.alive p hp), fun i hi => h.identityFile i (h'.identityFile i hi)⟩⟩

theorem OnlyEnds.clearing {w w' : World} (h : OnlyEnds w w') : Clearing w w' :=
  ⟨h.alive, fun i hi => by rwa [World.identityFile, h.runtime] at hi⟩

theorem Clearing.empty {w w' : World} (h : Clearing w w') (hempty : w.alive = []) : w'.alive = [] :=
  List.eq_nil_iff_forall_not_mem.mpr fun p hp => List.not_mem_nil (hempty ▸ h.alive p hp)

/-- Where nothing is alive only what `identity.json` records matters. -/
theorem FilesInv.of_empty {w : World} (hempty : w.alive = [])
    (hidentity : ∀ i, w.identityFile = some i → ∀ r, i.vmm = some r → r.role = .vmm) : FilesInv plan w := by
  have hnot : ∀ p, p ∉ w.alive := fun p hp => List.not_mem_nil (hempty ▸ hp)
  exact ⟨fun p hp => absurd hp (hnot p), fun p hp => absurd hp (hnot p), ⟨fun p hp => absurd hp (hnot p),
    fun p hp => absurd hp (hnot p)⟩, hidentity, fun _ => .inl hempty⟩

theorem FilesInv.clearing {w w' : World} (h : FilesInv plan w) (hempty : w.alive = []) (hclear : Clearing w w') :
    FilesInv plan w' :=
  .of_empty (hclear.empty hempty) fun i hi => h.identityFile i (hclear.identityFile i hi)

section clearing

set_option synthInstance.maxSize 2000

instance call_clearing : Keeps Clearing call := call_ends.mono fun _ _ h => h.clearing

instance interact_clearing : Keeps Clearing interact := interact_ends.mono fun _ _ h => h.clearing

instance removeRuntime_clearing : Keeps Clearing removeRuntime := by
  have : Keeps Clearing (modify fun w => { w with runtime := none } : ShimProg Unit) :=
    ⟨fun _ => ⟨fun _ h => h, nofun⟩⟩
  unfold removeRuntime
  infer_instance

instance writeLocked_clearing (f : MachineState → MachineState) : Keeps Clearing (writeLocked f) := by
  have : ∀ st, Keeps Clearing (modify fun w => { w with stateFile := st } : ShimProg Unit) := fun _ =>
    ⟨fun _ => ⟨fun _ h => h, fun _ h => h⟩⟩
  unfold writeLocked
  infer_instance

instance launchPrepared_clearing (pid : Nat) (startedAt : String) (previous : MachineStatus) :
    Keeps Clearing (launchPrepared pid startedAt previous) := by
  have : ∀ e, Keeps Clearing (rollbackBeforeShim previous e) := fun e => by
    unfold rollbackBeforeShim
    infer_instance
  unfold launchPrepared
  infer_instance

instance prepareRuntime_clearing : Keeps Clearing prepareRuntime := by
  have : Keeps Clearing (modify fun w => { w with runtime := some ⟨none⟩ } : ShimProg Unit) :=
    ⟨fun _ => ⟨fun _ h => h, nofun⟩⟩
  unfold prepareRuntime
  infer_instance

end clearing

/-- A start that gets past the guard finds nothing alive. -/
theorem prepareStart_files {w w' : World} {o : Outcome FirestoneError MachineStatus} (h : FilesInv plan w) (hlost : ¬w.lost)
    (hrecorded : Recorded w) (hrun : prepareStart name w = (o, w')) :
    FilesInv plan w' ∧ ∀ status, o = .ok status → w'.alive = [] := by
  by_cases hactive : w.stateFile.status.isActive = true
  · rw [prepareStart, bind_run_ok get_run, if_pos hactive] at hrun
    cases hrun
    exact ⟨h, nofun⟩
  · rw [prepareStart, bind_run_ok get_run, if_neg hactive] at hrun
    rcases hguard : ensureNoLiveRuntime name w with ⟨_ | e | _, u⟩
    · rw [bind_run_ok hguard] at hrun
      have hempty := ensureNoLiveRuntime_empty h hlost hrecorded hguard
      have hclear : Clearing u w' := (inferInstance : Keeps Clearing (prepareRuntime >>= fun _ => pure _)).run hrun
      exact ⟨(h.onlyEnds (ensureNoLiveRuntime_ends.run hguard)).clearing hempty hclear, fun _ _ => hclear.empty hempty⟩
    · cases (bind_run_error hguard).symm.trans hrun
      exact ⟨h.onlyEnds (ensureNoLiveRuntime_ends.run hguard), nofun⟩
    · cases (bind_run_killed hguard).symm.trans hrun
      exact ⟨h.onlyEnds (ensureNoLiveRuntime_ends.run hguard), nofun⟩

/-- However far a start gets, the files agree with the processes. -/
theorem start_files {w : World} {pid : Nat} {startedAt : String} (h : FilesInv plan w) (hlost : ¬w.lost)
    (hrecorded : Recorded w) : FilesInv plan (start name pid startedAt w).2 := by
  refine bind_cases (P := fun r => FilesInv plan r.2) (fun status u hprepare => ?_) (fun _ _ hprepare => ?_)
    fun _ hprepare => ?_
  all_goals obtain ⟨hfiles, hempty⟩ := prepareStart_files h hlost hrecorded hprepare
  · exact hfiles.clearing (hempty status rfl) ((launchPrepared_clearing pid startedAt status).step u)
  · exact hfiles
  · exact hfiles

theorem writeLocked_file {f : MachineState → MachineState} {w w' : World} (h : writeLocked f w = (.ok (), w')) :
    w'.stateFile = f w.stateFile := by
  obtain ⟨_, u₁, hget, h⟩ := bind_eq_ok.mp h
  cases hget
  obtain ⟨_, u₂, -, h⟩ := bind_eq_ok.mp h
  obtain ⟨_, u₃, -, h⟩ := bind_eq_ok.mp h
  obtain ⟨_, u₄, hset, h⟩ := bind_eq_ok.mp h
  cases hset
  obtain ⟨_, u₅, hcall, h⟩ := bind_eq_ok.mp h
  cases h
  exact (call_ends.run hcall).stateFile

/-- A start that succeeds leaves a launch prepared for its shim. -/
theorem start_prepared {w w' : World} {pid : Nat} {startedAt : String} (h : FilesInv plan w) (hlost : ¬w.lost)
    (hrecorded : Recorded w) (hrun : start name pid startedAt w = (.ok (), w')) :
    Prepared pid w'.stateFile w'.alive := by
  obtain ⟨status, u, hprepare, hrun⟩ := bind_eq_ok.mp hrun
  have hempty := (prepareStart_files h hlost hrecorded hprepare).2 status rfl
  have hclear : Clearing u w' := (launchPrepared_clearing pid startedAt status).run hrun
  obtain ⟨_, v, -, hrun⟩ := bind_eq_ok.mp hrun
  obtain ⟨_, t, -, hwrite⟩ := bind_eq_ok.mp (onError_eq_ok.mp hrun)
  have hfile := writeLocked_file hwrite
  exact fun _ _ => ⟨hclear.empty hempty, by rw [hfile]; rfl, by rw [hfile]; rfl⟩

end Firestone.Shim
