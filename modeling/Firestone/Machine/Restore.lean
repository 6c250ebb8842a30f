import Firestone.State
import Firestone.Lib.Bytes
import Firestone.Lib.Crash

/-!
# Snapshot restore

`snapshot_restore` replaces the disk, the spec and the VmConfig of a machine one after the other and, for a warm
snapshot, leaves a marker that makes the next start resume the snapshot. It may stop between any two of these writes, by
an error or because the process ends.

* `snapshotRestore` — the writes, in their order, and the result.
* `Point` — the four things the next start finds.
* `snapshotRestore_atomic_iff` — when every stop leaves one point in time: at most one of the replacements may change
  anything, and none if the snapshot is damaged.

Each write is one rename or one unlink, so it is made whole or not at all. The snapshot does not change meanwhile: its
lock is held. A warm restore, or one with `start`, goes on to start the machine, which finds what was written.
-/

namespace Firestone.Machine.Restore

open Firestone.Lib

inductive SnapshotKind
  | cold | warm
  deriving DecidableEq, Repr

/-- One published snapshot. A file of it may be missing. -/
structure Snapshot where
  name : String
  directory : String
  kind : SnapshotKind
  disk : Option Bytes
  spec : Option Bytes
  vmconfig : Option Bytes
  deriving DecidableEq, Repr

/-- The marker of a pending warm restore. -/
structure RestoreRequest where
  snapshot : String
  snapshotDir : String
  vmstateDir : String
  vmconfigSha256 : String
  createdAt : String
  deriving DecidableEq, Repr

/-- The files of the machine that a restore touches. -/
structure Files where
  disk : Option Bytes
  diskPartial : Option Bytes
  spec : Option Bytes
  vmconfig : Option Bytes
  marker : Option RestoreRequest
  state : MachineState
  deriving DecidableEq, Repr

inductive Write
  | removeMarker
  | removeDisk
  | removeDiskPartial
  | copyDisk (bytes : Bytes)
  | renameDisk
  | spec (bytes : Bytes)
  | vmconfig (bytes : Bytes)
  | removeVmconfig
  | state (state : MachineState)
  | marker (request : RestoreRequest)
  deriving DecidableEq, Repr

def Files.apply (f : Files) : Write → Files
  | .removeMarker => { f with marker := none }
  | .removeDisk => { f with disk := none }
  | .removeDiskPartial => { f with diskPartial := none }
  | .copyDisk bytes => { f with diskPartial := some bytes }
  | .renameDisk => { f with disk := f.diskPartial, diskPartial := none }
  | .spec bytes => { f with spec := some bytes }
  | .vmconfig bytes => { f with vmconfig := some bytes }
  | .removeVmconfig => { f with vmconfig := none }
  | .state state => { f with state := state }
  | .marker request => { f with marker := some request }

/-! ## The restore -/

def becameActiveError (name : String) : FirestoneError :=
  (FirestoneError.new .conflict ("machine `" ++ name ++ "` became active during restore")).withHint
    ("stop " ++ name ++ " and retry the restore")

def missingSpecError (snap : Snapshot) : FirestoneError :=
  (FirestoneError.new .notFound ("cannot read snapshot spec " ++ snap.directory ++ "/spec.toml")).withHint
    "check that the file exists and is readable"

def missingVmconfigError (name : String) (snap : Snapshot) : FirestoneError :=
  (FirestoneError.new .conflict ("warm snapshot `" ++ snap.name ++ "` of machine `" ++ name ++ "` has no VmConfig")).withHint
    "remove the damaged snapshot and take a new one"

/-- `restore_machine_disk`. -/
def restoreMachineDisk (snap : Snapshot) : List Write :=
  match snap.disk with
  | none => [.removeDisk]
  | some bytes => [.removeDiskPartial, .copyDisk bytes, .renameDisk]

def restoreVmconfig (snap : Snapshot) : Write :=
  match snap.vmconfig with
  | some bytes => .vmconfig bytes
  | none => .removeVmconfig

def restoredState (live : MachineState) : MachineState :=
  { live with status := if live.status = .failed then .stopped else live.status, degraded := [] }

section restore

variable (sha256Hex : Bytes → String) (now : String)

def restoreRequest (snap : Snapshot) (vmconfig : Bytes) : RestoreRequest :=
  ⟨snap.name, snap.directory, snap.directory ++ "/vmstate", sha256Hex vmconfig, now⟩

/-- `snapshot_restore` once it holds the machine lock: the writes it makes, in their order, if it is not stopped before,
and its result. -/
def snapshotRestore (name : String) (snap : Snapshot) (live : MachineState) : List Write × Res Unit :=
  if live.status.isActive then ([], .error (becameActiveError name))
  else
    let replaced := .removeMarker :: restoreMachineDisk snap
    match snap.spec with
    | none => (replaced, .error (missingSpecError snap))
    | some spec =>
      let replaced := replaced ++ [.spec spec, restoreVmconfig snap, .state (restoredState live)]
      match snap.kind, snap.vmconfig with
      | .cold, _ => (replaced, .ok ())
      | .warm, none => (replaced, .error (missingVmconfigError name snap))
      | .warm, some bytes => (replaced ++ [.marker (restoreRequest sha256Hex now snap bytes)], .ok ())

/-! ## One point in time -/

/-- What the next start finds. -/
structure Point where
  disk : Option Bytes
  spec : Option Bytes
  vmconfig : Option Bytes
  marker : Option RestoreRequest
  deriving DecidableEq, Repr

def Files.point (f : Files) : Point := ⟨f.disk, f.spec, f.vmconfig, f.marker⟩

/-- The snapshot has what a restore needs. -/
def Snapshot.complete (snap : Snapshot) : Bool :=
  snap.spec.isSome && (snap.kind = .cold || snap.vmconfig.isSome)

/-- The machine at the snapshot: to be resumed from it if it is warm. -/
def Snapshot.point (snap : Snapshot) : Point where
  disk := snap.disk
  spec := snap.spec
  vmconfig := snap.vmconfig
  marker := match snap.kind with
    | .cold => none
    | .warm => snap.vmconfig.map (restoreRequest sha256Hex now snap)

/-- Wherever the restore stops, the machine is as before it or at the snapshot. -/
def Atomic (name : String) (snap : Snapshot) (files : Files) : Prop :=
  ∀ f ∈ stops Files.apply files (snapshotRestore sha256Hex now name snap files.state).1,
    f.point = files.point ∨ (snap.complete ∧ f.point = snap.point sha256Hex now)

end restore

/-- How many of the replacements change anything: clearing a pending marker, the disk, the spec, the VmConfig, and the
marker of a warm snapshot. -/
def changes (snap : Snapshot) (files : Files) : Nat :=
  [decide (files.marker ≠ none), decide (files.disk ≠ snap.disk), decide (files.spec ≠ snap.spec),
    decide (files.vmconfig ≠ snap.vmconfig), decide (snap.kind = .warm)].count true

/-- The replacements made before a damaged snapshot is noticed change nothing. -/
def Unchanged (snap : Snapshot) (files : Files) : Prop :=
  files.marker = none ∧ files.disk = snap.disk ∧
    (snap.spec.isSome → files.spec = snap.spec ∧ files.vmconfig = snap.vmconfig)

/-! ## Where it stops -/

section points

variable {sha256Hex : Bytes → String} {now name : String} {snap : Snapshot} {files f : Files} {P : Point}

/-- The restore can stop at the point. -/
def StopsAt (files : Files) (ws : List Write) (P : Point) : Prop := ∃ t ∈ stops Files.apply files ws, t.point = P

theorem stopsAt_append {ws ws' : List Write} :
    StopsAt files (ws ++ ws') P ↔ StopsAt files ws P ∨ StopsAt (ws.foldl Files.apply files) ws' P := by
  simp only [StopsAt, mem_stops_append, or_and_right, exists_or]

theorem stopsAt_cons {w : Write} {ws : List Write} :
    StopsAt files (w :: ws) P ↔ files.point = P ∨ StopsAt (files.apply w) ws P := by
  simp only [StopsAt, mem_stops_cons, or_and_right, exists_or, exists_eq_left]

theorem stopsAt_nil : StopsAt files [] P ↔ files.point = P := by
  simp [StopsAt, stops]

/-- The disk is replaced by one rename or one unlink. -/
theorem restoreMachineDisk_point :
    ((restoreMachineDisk snap).foldl Files.apply f).point = { f.point with disk := snap.disk } := by
  unfold restoreMachineDisk
  split <;> simp_all [Files.apply, Files.point]

theorem restoreMachineDisk_stopsAt :
    StopsAt f (restoreMachineDisk snap) P ↔ f.point = P ∨ { f.point with disk := snap.disk } = P := by
  unfold restoreMachineDisk
  split <;> simp_all [stopsAt_cons, stopsAt_nil, Files.apply, Files.point]

theorem apply_restoreVmconfig_point :
    (f.apply (restoreVmconfig snap)).point = { f.point with vmconfig := snap.vmconfig } := by
  unfold restoreVmconfig
  split <;> simp_all [Files.apply, Files.point]

/-- The points after the replacements up to the VmConfig, in their order. -/
def cleared (files : Files) : Point := { files.point with marker := none }

def diskReplaced (snap : Snapshot) (files : Files) : Point := { cleared files with disk := snap.disk }

def specReplaced (snap : Snapshot) (files : Files) : Point := { diskReplaced snap files with spec := snap.spec }

def allReplaced (snap : Snapshot) (files : Files) : Point := { specReplaced snap files with vmconfig := snap.vmconfig }

/-- Up to the disk, the restore of any snapshot is the same. -/
theorem head_stopsAt : StopsAt files (.removeMarker :: restoreMachineDisk snap) P ↔
    files.point = P ∨ cleared files = P ∨ diskReplaced snap files = P := by
  rw [stopsAt_cons, restoreMachineDisk_stopsAt]
  rfl

theorem tail_stopsAt {spec : Bytes} {state : MachineState} (hspec : snap.spec = some spec) :
    StopsAt f [.spec spec, restoreVmconfig snap, .state state] P ↔ f.point = P ∨ { f.point with spec := snap.spec } = P ∨
      { f.point with spec := snap.spec, vmconfig := snap.vmconfig } = P := by
  rw [stopsAt_cons, stopsAt_cons, stopsAt_cons, stopsAt_nil, hspec]
  have hvm := @apply_restoreVmconfig_point snap (f.apply (.spec spec))
  have hstate : ((f.apply (.spec spec)).apply (restoreVmconfig snap) |>.apply (.state state)).point =
      ((f.apply (.spec spec)).apply (restoreVmconfig snap)).point := rfl
  rw [hstate, hvm]
  simp only [or_self]
  rfl

theorem head_point : ((Write.removeMarker :: restoreMachineDisk snap).foldl Files.apply files).point =
    diskReplaced snap files := restoreMachineDisk_point

/-- Up to the state, the restore of any snapshot with a spec is the same. -/
theorem replaced_stopsAt {spec : Bytes} {state : MachineState} (hspec : snap.spec = some spec) :
    StopsAt files (.removeMarker :: restoreMachineDisk snap ++ [.spec spec, restoreVmconfig snap, .state state]) P ↔
      files.point = P ∨ cleared files = P ∨ diskReplaced snap files = P ∨ specReplaced snap files = P ∨
        allReplaced snap files = P := by
  rw [stopsAt_append, head_stopsAt, tail_stopsAt hspec, head_point]
  show _ ∨ _ ∨ specReplaced snap files = P ∨ allReplaced snap files = P ↔ _
  tauto

theorem replaced_point {spec : Bytes} {state : MachineState} (hspec : snap.spec = some spec) :
    ((Write.removeMarker :: restoreMachineDisk snap ++ [.spec spec, restoreVmconfig snap, .state state]).foldl
      Files.apply files).point = allReplaced snap files := by
  rw [List.foldl_append]
  have hhead := @head_point snap files
  generalize (Write.removeMarker :: restoreMachineDisk snap).foldl Files.apply files = g at hhead ⊢
  show ((g.apply (.spec spec)).apply (restoreVmconfig snap)).point = _
  rw [apply_restoreVmconfig_point]
  show { g.point with spec := some spec, vmconfig := snap.vmconfig } = _
  rw [hhead, ← hspec]
  rfl

/-- Where the restore of an inactive machine can stop. -/
theorem snapshotRestore_stopsAt (hactive : files.state.status.isActive = false) :
    StopsAt files (snapshotRestore sha256Hex now name snap files.state).1 P ↔
      files.point = P ∨ cleared files = P ∨ diskReplaced snap files = P ∨
        (snap.spec.isSome ∧ (specReplaced snap files = P ∨ allReplaced snap files = P)) ∨
        (snap.complete ∧ snap.kind = .warm ∧ snap.point sha256Hex now = P) := by
  unfold snapshotRestore
  rw [if_neg (by simp [hactive])]
  split
  · rename_i hspec
    simp [head_stopsAt, hspec, Snapshot.complete]
  · rename_i spec hspec
    split
    · rename_i hkind
      rw [replaced_stopsAt hspec]
      simp [hspec, hkind]
    · rename_i hkind hvm
      rw [replaced_stopsAt hspec]
      simp [hspec, hkind, hvm, Snapshot.complete]
    · rename_i bytes hkind hvm
      rw [stopsAt_append, replaced_stopsAt hspec, stopsAt_cons, stopsAt_nil, replaced_point hspec]
      have hall := @replaced_point snap files spec (restoredState files.state) hspec
      generalize List.foldl Files.apply files _ = g at hall ⊢
      have hlast : (g.apply (.marker (restoreRequest sha256Hex now snap bytes))).point = snap.point sha256Hex now := by
        show { g.point with marker := some (restoreRequest sha256Hex now snap bytes) } = _
        rw [hall]
        simp [Snapshot.point, allReplaced, specReplaced, diskReplaced, hkind, hvm]
      rw [hlast]
      simp only [hspec, hkind, hvm, Snapshot.complete, Option.isSome_some, Bool.or_true, Bool.and_true, true_and]
      tauto

/-! ## Comparing the points -/

theorem point_eq_iff {P Q : Point} :
    P = Q ↔ P.disk = Q.disk ∧ P.spec = Q.spec ∧ P.vmconfig = Q.vmconfig ∧ P.marker = Q.marker := by
  cases P
  cases Q
  simp

/-- The point is one of the two allowed ones. -/
def Kept (sha256Hex : Bytes → String) (now : String) (snap : Snapshot) (files : Files) (P : Point) : Prop :=
  P = files.point ∨ (snap.complete ∧ P = snap.point sha256Hex now)

/-- The four points between the first and the last decide. -/
theorem atomic_iff (hactive : files.state.status.isActive = false) : Atomic sha256Hex now name snap files ↔
    Kept sha256Hex now snap files (cleared files) ∧ Kept sha256Hex now snap files (diskReplaced snap files) ∧
      (snap.spec.isSome → Kept sha256Hex now snap files (specReplaced snap files) ∧
        Kept sha256Hex now snap files (allReplaced snap files)) := by
  have hstops : ∀ P, StopsAt files (snapshotRestore sha256Hex now name snap files.state).1 P ↔ _ :=
    fun _ => snapshotRestore_stopsAt hactive
  constructor
  · intro h
    have hkept : ∀ P, StopsAt files (snapshotRestore sha256Hex now name snap files.state).1 P →
        Kept sha256Hex now snap files P := by
      rintro P ⟨t, ht, rfl⟩
      exact h t ht
    refine ⟨hkept _ ((hstops _).mpr (.inr (.inl rfl))), hkept _ ((hstops _).mpr (.inr (.inr (.inl rfl)))), fun hs => ?_⟩
    exact ⟨hkept _ ((hstops _).mpr (.inr (.inr (.inr (.inl ⟨hs, .inl rfl⟩))))),
      hkept _ ((hstops _).mpr (.inr (.inr (.inr (.inl ⟨hs, .inr rfl⟩)))))⟩
  · rintro ⟨hcleared, hdisk, hrest⟩ f hf
    rcases (hstops f.point).mp ⟨f, hf, rfl⟩ with hP | hP | hP | ⟨hs, hP | hP⟩ | ⟨hc, -, hP⟩
    · exact .inl hP.symm
    · exact hP ▸ hcleared
    · exact hP ▸ hdisk
    · exact hP ▸ (hrest hs).1
    · exact hP ▸ (hrest hs).2
    · exact .inr ⟨hc, hP.symm⟩

theorem cleared_eq_point : cleared files = files.point ↔ files.marker = none := by
  simp [point_eq_iff, cleared, Files.point, eq_comm]

theorem diskReplaced_eq_point :
    diskReplaced snap files = files.point ↔ files.marker = none ∧ files.disk = snap.disk := by
  simp [point_eq_iff, diskReplaced, cleared, Files.point, eq_comm, and_comm]

theorem specReplaced_eq_point : specReplaced snap files = files.point ↔
    files.marker = none ∧ files.disk = snap.disk ∧ files.spec = snap.spec := by
  simp only [point_eq_iff, specReplaced, diskReplaced, cleared, Files.point, true_and, @eq_comm _ snap.disk,
    @eq_comm _ snap.spec, @eq_comm _ none files.marker]
  exact ⟨fun ⟨hd, hs, hm⟩ => ⟨hm, hd, hs⟩, fun ⟨hm, hd, hs⟩ => ⟨hd, hs, hm⟩⟩

theorem allReplaced_eq_point : allReplaced snap files = files.point ↔
    files.marker = none ∧ files.disk = snap.disk ∧ files.spec = snap.spec ∧ files.vmconfig = snap.vmconfig := by
  simp only [point_eq_iff, allReplaced, specReplaced, diskReplaced, cleared, Files.point, @eq_comm _ snap.disk,
    @eq_comm _ snap.spec, @eq_comm _ snap.vmconfig, @eq_comm _ none files.marker]
  exact ⟨fun ⟨hd, hs, hv, hm⟩ => ⟨hm, hd, hs, hv⟩, fun ⟨hm, hd, hs, hv⟩ => ⟨hd, hs, hv, hm⟩⟩

/-- Only a cold snapshot leaves no marker. -/
theorem snapshot_marker (hc : snap.complete = true) :
    none = (snap.point sha256Hex now).marker ↔ snap.kind = .cold := by
  cases hk : snap.kind with
  | cold => simp [Snapshot.point, hk]
  | warm =>
    have hvm : snap.vmconfig.isSome = true := by simpa [Snapshot.complete, hk] using (Bool.and_eq_true_iff.mp hc).2
    obtain ⟨bytes, hvm⟩ := Option.isSome_iff_exists.mp hvm
    simp [Snapshot.point, hk, hvm]

theorem cleared_eq_snapshot (hc : snap.complete = true) : cleared files = snap.point sha256Hex now ↔
    files.disk = snap.disk ∧ files.spec = snap.spec ∧ files.vmconfig = snap.vmconfig ∧ snap.kind = .cold := by
  rw [point_eq_iff, ← @snapshot_marker sha256Hex now snap hc]
  rfl

theorem diskReplaced_eq_snapshot (hc : snap.complete = true) : diskReplaced snap files = snap.point sha256Hex now ↔
    files.spec = snap.spec ∧ files.vmconfig = snap.vmconfig ∧ snap.kind = .cold := by
  rw [point_eq_iff, ← @snapshot_marker sha256Hex now snap hc]
  exact ⟨fun h => h.2, fun h => ⟨rfl, h⟩⟩

theorem specReplaced_eq_snapshot (hc : snap.complete = true) : specReplaced snap files = snap.point sha256Hex now ↔
    files.vmconfig = snap.vmconfig ∧ snap.kind = .cold := by
  rw [point_eq_iff, ← @snapshot_marker sha256Hex now snap hc]
  exact ⟨fun h => h.2.2, fun h => ⟨rfl, rfl, h⟩⟩

theorem allReplaced_eq_snapshot (hc : snap.complete = true) : allReplaced snap files = snap.point sha256Hex now ↔
    snap.kind = .cold := by
  rw [point_eq_iff, ← @snapshot_marker sha256Hex now snap hc]
  exact ⟨fun h => h.2.2.2, fun h => ⟨rfl, rfl, rfl, h⟩⟩

theorem changes_le_one_iff : changes snap files ≤ 1 ↔
    (files.marker = none ∨ (files.disk = snap.disk ∧ files.spec = snap.spec ∧ files.vmconfig = snap.vmconfig ∧
      snap.kind = .cold)) ∧
    ((files.marker = none ∧ files.disk = snap.disk) ∨ (files.spec = snap.spec ∧ files.vmconfig = snap.vmconfig ∧
      snap.kind = .cold)) ∧
    ((files.marker = none ∧ files.disk = snap.disk ∧ files.spec = snap.spec) ∨ (files.vmconfig = snap.vmconfig ∧
      snap.kind = .cold)) ∧
    ((files.marker = none ∧ files.disk = snap.disk ∧ files.spec = snap.spec ∧ files.vmconfig = snap.vmconfig) ∨
      snap.kind = .cold) := by
  have hkind : snap.kind = .cold ↔ ¬ snap.kind = .warm := by cases snap.kind <;> simp
  rw [hkind]
  unfold changes
  by_cases hm : files.marker = none <;> by_cases hd : files.disk = snap.disk <;> by_cases hs : files.spec = snap.spec <;>
    by_cases hv : files.vmconfig = snap.vmconfig <;> by_cases hk : snap.kind = .warm <;> simp [hm, hd, hs, hv, hk]

end points

/-- **Atomicity of restore**: every stop leaves the machine as it was or at the snapshot exactly when at most one of the
replacements changes anything, or none does and the snapshot is damaged. -/
theorem snapshotRestore_atomic_iff (sha256Hex : Bytes → String) (now name : String) (snap : Snapshot) (files : Files) :
    Atomic sha256Hex now name snap files ↔ files.state.status.isActive ∨
      if snap.complete then changes snap files ≤ 1 else Unchanged snap files := by
  by_cases hactive : files.state.status.isActive = true
  · -- Nothing is written at all.
    refine iff_of_true (fun f hf => ?_) (.inl hactive)
    simp only [snapshotRestore, hactive, if_true, stops, List.mem_singleton] at hf
    exact .inl (by rw [hf])
  rw [atomic_iff (Bool.not_eq_true _ ▸ hactive)]
  simp only [hactive, Bool.false_eq_true, false_or]
  by_cases hc : snap.complete = true
  · rw [if_pos hc, changes_le_one_iff]
    have hspec : snap.spec.isSome = true := (Bool.and_eq_true_iff.mp hc).1
    simp only [Kept, hc, hspec, true_and, forall_const, cleared_eq_point, diskReplaced_eq_point, specReplaced_eq_point,
      allReplaced_eq_point, cleared_eq_snapshot hc, diskReplaced_eq_snapshot hc, specReplaced_eq_snapshot hc,
      allReplaced_eq_snapshot hc]
  · rw [if_neg hc]
    simp only [Kept, hc, Bool.false_eq_true, false_and, or_false, cleared_eq_point, diskReplaced_eq_point,
      specReplaced_eq_point, allReplaced_eq_point, Unchanged]
    constructor
    · rintro ⟨hm, ⟨-, hd⟩, hrest⟩
      exact ⟨hm, hd, fun h => (hrest h).2.2.2⟩
    · rintro ⟨hm, hd, hrest⟩
      exact ⟨hm, ⟨hm, hd⟩, fun h => ⟨⟨hm, hd, (hrest h).1⟩, hm, hd, hrest h⟩⟩

instance {sha256Hex : Bytes → String} {now name : String} {snap : Snapshot} {files : Files} :
    Decidable (Atomic sha256Hex now name snap files) := inferInstanceAs (Decidable (∀ f ∈ stops _ _ _, _ ∨ _))

/-- A stopped machine that has run. -/
def stoppedFiles : Files where
  disk := some [1]
  diskPartial := none
  spec := some [2]
  vmconfig := some [3]
  marker := none
  state := ⟨.stopped, ⟨"ubuntu", none, none⟩, none, 3, none, none, none, [], "/run/dev", none, [], [], none⟩

/-- A warm snapshot whose VmConfig is lost. -/
def damagedSnapshot : Snapshot := ⟨"before", "/data/dev/snapshots/before", .warm, some [4], some [5], none⟩

/-- The error about the missing VmConfig comes after the disk, the spec and the VmConfig of the machine are replaced. -/
theorem damaged_restore_not_atomic :
    (snapshotRestore (fun _ => "") "now" "dev" damagedSnapshot stoppedFiles.state).2 =
        .error (missingVmconfigError "dev" damagedSnapshot) ∧
      ((snapshotRestore (fun _ => "") "now" "dev" damagedSnapshot stoppedFiles.state).1.foldl Files.apply
        stoppedFiles).point = ⟨some [4], some [5], none, none⟩ ∧
      ¬ Atomic (fun _ => "") "now" "dev" damagedSnapshot stoppedFiles := by
  refine ⟨by decide, by decide, by decide⟩

-- A cold snapshot that is complete: a stop after the disk leaves the captured disk with the newer spec.
example : ¬ Atomic (fun _ => "") "now" "dev" ⟨"before", "/data/dev/snapshots/before", .cold, some [4], some [5], some [3]⟩
    stoppedFiles := by decide

end Firestone.Machine.Restore
