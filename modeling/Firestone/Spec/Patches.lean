import Firestone.Spec
import Firestone.Vmm.Config

/-!
# A patch on a spec

A patch of the command line or of the API is written into the effective spec, field after field.

* `MachineSpecPatch.applyInPlace` — the writes, in their order, after the check.
* `applyInPlace_run` — they do to the spec what `applyToWithVectors` returns, and nothing when the check fails.
* `validate_iff` — what the check accepts.
* `MachineSpecPatch.Applied` — the spec after a patch, leaf by leaf.
* `applyInPlace_exact` — a patch that is accepted changes the leaves that it names and no other.

The overlay is one leaf: a patch that sets it replaces the overlay of the spec.
-/

namespace Firestone

open Firestone.Lib

/-! ## Writes -/

/-- Code that holds a spec by a mutable reference and may fail on the way. -/
abbrev SpecUpdate := ExceptT FirestoneError (StateM MachineSpec)

namespace SpecUpdate

/-- What the code returns, and the spec that it leaves. -/
def runOn (update : SpecUpdate Unit) (spec : MachineSpec) : Res Unit × MachineSpec := update.run.run spec

def check (result : Res Unit) : SpecUpdate Unit := ExceptT.mk (pure result)

/-- `if let Some(value)`. -/
def assign {α : Type} (value : Option α) (write : α → MachineSpec → MachineSpec) : SpecUpdate Unit :=
  match value with
  | some value => modify (write value)
  | none => pure ()

end SpecUpdate

namespace MachineSpecPatch

open SpecUpdate

def applyClearsInPlace (patch : MachineSpecPatch) : SpecUpdate Unit :=
  patch.clear.forM fun clear => modify fun spec => spec.applyClear clear

def assignFields (patch : MachineSpecPatch) (merge : VectorMerge) : SpecUpdate Unit := do
  assign patch.image fun image spec => { spec with image := image }
  assign patch.arch fun arch spec => { spec with arch := some arch }
  assign patch.cpus fun cpus spec => { spec with cpus := cpus }
  assign patch.cpusMax fun cpusMax spec => { spec with cpusMax := some cpusMax }
  assign patch.memory fun memory spec => { spec with memory := memory }
  assign patch.memoryMax fun memoryMax spec => { spec with memoryMax := some memoryMax }
  assign patch.disk fun disk spec => { spec with disk := disk }
  assign patch.user fun user spec => { spec with user := user }
  assign patch.network fun network spec => { spec with network := network.applyTo spec.network merge }
  assign patch.mounts fun mounts spec => { spec with mounts := mergeVector spec.mounts (some mounts) merge }
  assign patch.cloudInit fun cloudInit spec => { spec with cloudInit := cloudInit.applyTo spec.cloudInit merge }
  assign patch.vmm fun vmm spec => { spec with vmm := vmm.applyTo spec.vmm merge }

/-- `apply_to_with_vectors`. -/
def applyInPlace (patch : MachineSpecPatch) (merge : VectorMerge) : SpecUpdate Unit := do
  check patch.validate
  patch.applyClearsInPlace
  patch.assignFields merge

end MachineSpecPatch

namespace SpecUpdate

variable {update next : SpecUpdate Unit} {f g : MachineSpec → MachineSpec}

/-- The code succeeds on every spec and writes this. -/
def Writes (update : SpecUpdate Unit) (f : MachineSpec → MachineSpec) : Prop :=
  ∀ spec, update.runOn spec = (.ok (), f spec)

theorem Writes.seq (h : Writes update f) (hnext : Writes next g) : Writes (update >>= fun _ => next) (g ∘ f) := by
  intro spec
  have hfirst : update.run.run spec = (.ok (), f spec) := h spec
  change (ExceptT.bindCont (fun _ => next) (update.run.run spec).1).run (update.run.run spec).2 = _
  rw [hfirst]
  exact hnext (f spec)

end SpecUpdate

namespace MachineSpecPatch

open SpecUpdate

variable {patch : MachineSpecPatch}

theorem writes_clears (patch : MachineSpecPatch) : Writes patch.applyClearsInPlace patch.applyClears := by
  have hall : ∀ clears : List SpecClear,
      Writes (clears.forM fun clear => modify fun spec => spec.applyClear clear) (clears.foldl MachineSpec.applyClear) := by
    intro clears
    induction clears with
    | nil => exact fun _ => rfl
    | cons clear clears ih =>
      have hclear : Writes (modify fun spec => spec.applyClear clear) (MachineSpec.applyClear · clear) := fun _ => rfl
      exact hclear.seq ih
  exact hall patch.clear

theorem writes_assignFields (patch : MachineSpecPatch) (merge : VectorMerge) :
    Writes (patch.assignFields merge) (patch.applySets · merge) := by
  have himage : Writes (assign patch.image fun image spec => { spec with image := image })
      fun spec => { spec with image := patch.image.getD spec.image } := by cases patch.image <;> exact fun _ => rfl
  have harch : Writes (assign patch.arch fun arch spec => { spec with arch := some arch })
      fun spec => { spec with arch := patch.arch.or spec.arch } := by cases patch.arch <;> exact fun _ => rfl
  have hcpus : Writes (assign patch.cpus fun cpus spec => { spec with cpus := cpus })
      fun spec => { spec with cpus := patch.cpus.getD spec.cpus } := by cases patch.cpus <;> exact fun _ => rfl
  have hcpusMax : Writes (assign patch.cpusMax fun cpusMax spec => { spec with cpusMax := some cpusMax })
      fun spec => { spec with cpusMax := patch.cpusMax.or spec.cpusMax } := by cases patch.cpusMax <;> exact fun _ => rfl
  have hmemory : Writes (assign patch.memory fun memory spec => { spec with memory := memory })
      fun spec => { spec with memory := patch.memory.getD spec.memory } := by cases patch.memory <;> exact fun _ => rfl
  have hmemoryMax : Writes (assign patch.memoryMax fun memoryMax spec => { spec with memoryMax := some memoryMax })
      fun spec => { spec with memoryMax := patch.memoryMax.or spec.memoryMax } := by
    cases patch.memoryMax <;> exact fun _ => rfl
  have hdisk : Writes (assign patch.disk fun disk spec => { spec with disk := disk })
      fun spec => { spec with disk := patch.disk.getD spec.disk } := by cases patch.disk <;> exact fun _ => rfl
  have huser : Writes (assign patch.user fun user spec => { spec with user := user })
      fun spec => { spec with user := patch.user.getD spec.user } := by cases patch.user <;> exact fun _ => rfl
  have hnetwork : Writes
      (assign patch.network fun network spec => { spec with network := network.applyTo spec.network merge })
      fun spec => { spec with
        network := (patch.network.map fun network => network.applyTo spec.network merge).getD spec.network } := by
    cases patch.network <;> exact fun _ => rfl
  have hmounts : Writes
      (assign patch.mounts fun mounts spec => { spec with mounts := mergeVector spec.mounts (some mounts) merge })
      fun spec => { spec with mounts := mergeVector spec.mounts patch.mounts merge } := by
    cases patch.mounts <;> exact fun _ => rfl
  have hcloudInit : Writes
      (assign patch.cloudInit fun cloudInit spec => { spec with cloudInit := cloudInit.applyTo spec.cloudInit merge })
      fun spec => { spec with
        cloudInit := (patch.cloudInit.map fun cloudInit => cloudInit.applyTo spec.cloudInit merge).getD spec.cloudInit } := by
    cases patch.cloudInit <;> exact fun _ => rfl
  have hvmm : Writes (assign patch.vmm fun vmm spec => { spec with vmm := vmm.applyTo spec.vmm merge })
      fun spec => { spec with vmm := (patch.vmm.map fun vmm => vmm.applyTo spec.vmm merge).getD spec.vmm } := by
    cases patch.vmm <;> exact fun _ => rfl
  exact himage.seq <| harch.seq <| hcpus.seq <| hcpusMax.seq <| hmemory.seq <| hmemoryMax.seq <| hdisk.seq <|
    huser.seq <| hnetwork.seq <| hmounts.seq <| hcloudInit.seq hvmm

/-- The writes do to the spec what the layer is said to return; a layer that fails the check does nothing. -/
theorem applyInPlace_run (patch : MachineSpecPatch) (merge : VectorMerge) (spec : MachineSpec) :
    (patch.applyInPlace merge).runOn spec =
      match patch.applyToWithVectors spec merge with
      | .ok spec' => (.ok (), spec')
      | .error e => (.error e, spec) := by
  unfold applyInPlace applyToWithVectors
  cases patch.validate with
  | error e => rfl
  | ok _ => exact ((writes_clears patch).seq (writes_assignFields patch merge)) spec

/-! ## The check -/

theorem checkClears_iff {clears seen : List SpecClear} :
    patch.checkClears seen clears = .ok () ↔
      clears.Nodup ∧ (∀ c ∈ clears, patch.sets c = false) ∧ ∀ c ∈ clears, c ∉ seen := by
  constructor
  · intro h
    induction clears generalizing seen with
    | nil => simp
    | cons c clears ih =>
      rw [checkClears] at h
      split at h
      · cases h
      · rename_i hseen
        split at h
        · cases h
        · rename_i hsets
          obtain ⟨hnodup, hsets', hseen'⟩ := ih h
          refine ⟨List.nodup_cons.mpr ⟨fun hc => hseen' c hc List.mem_cons_self, hnodup⟩, ?_, ?_⟩
          · rintro d (_ | ⟨_, hd⟩)
            · exact Bool.eq_false_iff.mpr hsets
            · exact hsets' d hd
          · rintro d (_ | ⟨_, hd⟩)
            · exact hseen
            · exact fun hmem => hseen' d hd (List.mem_cons_of_mem _ hmem)
  · rintro ⟨hnodup, hsets, hseen⟩
    exact checkClears_eq_ok hnodup hsets hseen

/-- A layer is accepted when it clears no field twice, sets no field that it clears, and has an object as its overlay. -/
theorem validate_iff :
    patch.validate = .ok () ↔
      patch.clear.Nodup ∧ (∀ c ∈ patch.clear, patch.sets c = false) ∧
      ∀ overlay ∈ patch.vmm.bind (·.configOverlay), overlay.isObject = true := by
  have hclears : patch.checkClears [] patch.clear = .ok () ↔
      patch.clear.Nodup ∧ ∀ c ∈ patch.clear, patch.sets c = false := by simp [checkClears_iff]
  unfold validate
  cases patch.vmm.bind (·.configOverlay) with
  | none =>
    change patch.checkClears [] patch.clear = .ok () ↔ _
    rw [hclears]
    simp
  | some overlay =>
    by_cases hobject : overlay.isObject = true
    · simp only [validateOverlay, if_pos hobject]
      change patch.checkClears [] patch.clear = .ok () ↔ _
      rw [hclears]
      simp [hobject]
    · simp only [validateOverlay, if_neg hobject]
      refine ⟨fun h => ?_, fun h => absurd (h.2.2 overlay rfl) hobject⟩
      cases h

/-! ## Leaves -/

/-- What a layer leaves of a field that can be absent. -/
def optionalLeaf {α : Type} (patch : MachineSpecPatch) (clear : SpecClear) (value old : Option α) : Option α :=
  match value with
  | some value => some value
  | none => if clear ∈ patch.clear then none else old

/-- What a layer leaves of a list: its own entries come last. -/
def listLeaf {α : Type} (patch : MachineSpecPatch) (clear : SpecClear) (values : Option (List α)) (old : List α) : List α :=
  match values with
  | some values => old ++ values
  | none => if clear ∈ patch.clear then [] else old

/-- The spec after a patch, leaf by leaf. -/
structure Applied (patch : MachineSpecPatch) (old new : MachineSpec) : Prop where
  image : new.image = patch.image.getD old.image
  arch : new.arch = patch.optionalLeaf .arch patch.arch old.arch
  cpus : new.cpus = patch.cpus.getD old.cpus
  cpusMax : new.cpusMax = patch.optionalLeaf .cpusMax patch.cpusMax old.cpusMax
  memory : new.memory = patch.memory.getD old.memory
  memoryMax : new.memoryMax = patch.optionalLeaf .memoryMax patch.memoryMax old.memoryMax
  disk : new.disk = patch.disk.getD old.disk
  user : new.user = patch.user.getD old.user
  mode : new.network.mode = (patch.network.bind (·.mode)).getD old.network.mode
  forward : new.network.forward = patch.listLeaf .networkForward (patch.network.bind (·.forward)) old.network.forward
  tap : new.network.tap = patch.optionalLeaf .networkTap (patch.network.bind (·.tap)) old.network.tap
  mac : new.network.mac = patch.optionalLeaf .networkMac (patch.network.bind (·.mac)) old.network.mac
  mounts : new.mounts = patch.listLeaf .mount patch.mounts old.mounts
  userData : new.cloudInit.userData =
    patch.optionalLeaf .cloudInitUserData (patch.cloudInit.bind (·.userData)) old.cloudInit.userData
  userDataInline : new.cloudInit.userDataInline =
    patch.optionalLeaf .cloudInitUserDataInline (patch.cloudInit.bind (·.userDataInline)) old.cloudInit.userDataInline
  networkConfig : new.cloudInit.networkConfig =
    patch.optionalLeaf .cloudInitNetworkConfig (patch.cloudInit.bind (·.networkConfig)) old.cloudInit.networkConfig
  sshKeys : new.cloudInit.sshKeys =
    patch.listLeaf .cloudInitSshKeys (patch.cloudInit.bind (·.sshKeys)) old.cloudInit.sshKeys
  sshAuthorizedKeys : new.cloudInit.sshAuthorizedKeys =
    patch.listLeaf .cloudInitSshAuthorizedKeys (patch.cloudInit.bind (·.sshAuthorizedKeys)) old.cloudInit.sshAuthorizedKeys
  password : new.cloudInit.password =
    patch.optionalLeaf .cloudInitPassword (patch.cloudInit.bind (·.password)) old.cloudInit.password
  sshPwauth : new.cloudInit.sshPwauth = (patch.cloudInit.bind (·.sshPwauth)).getD old.cloudInit.sshPwauth
  provisioning : new.cloudInit.provisioning = (patch.cloudInit.bind (·.provisioning)).getD old.cloudInit.provisioning
  binary : new.vmm.binary = patch.optionalLeaf .vmmBinary (patch.vmm.bind (·.binary)) old.vmm.binary
  firmware : new.vmm.firmware = (patch.vmm.bind (·.firmware)).getD old.vmm.firmware
  extraArgs : new.vmm.extraArgs = patch.listLeaf .vmmExtraArgs (patch.vmm.bind (·.extraArgs)) old.vmm.extraArgs
  configOverlay : new.vmm.configOverlay =
    patch.optionalLeaf .vmmConfigOverlay (patch.vmm.bind (·.configOverlay)) old.vmm.configOverlay

/-- The spec without the leaves that are cleared. -/
def cleared (spec : MachineSpec) (clears : List SpecClear) : MachineSpec where
  image := spec.image
  arch := if .arch ∈ clears then none else spec.arch
  cpus := spec.cpus
  cpusMax := if .cpusMax ∈ clears then none else spec.cpusMax
  memory := spec.memory
  memoryMax := if .memoryMax ∈ clears then none else spec.memoryMax
  disk := spec.disk
  user := spec.user
  network :=
    { mode := spec.network.mode
      forward := if .networkForward ∈ clears then [] else spec.network.forward
      tap := if .networkTap ∈ clears then none else spec.network.tap
      mac := if .networkMac ∈ clears then none else spec.network.mac }
  mounts := if .mount ∈ clears then [] else spec.mounts
  cloudInit :=
    { userData := if .cloudInitUserData ∈ clears then none else spec.cloudInit.userData
      userDataInline := if .cloudInitUserDataInline ∈ clears then none else spec.cloudInit.userDataInline
      networkConfig := if .cloudInitNetworkConfig ∈ clears then none else spec.cloudInit.networkConfig
      sshKeys := if .cloudInitSshKeys ∈ clears then [] else spec.cloudInit.sshKeys
      sshAuthorizedKeys := if .cloudInitSshAuthorizedKeys ∈ clears then [] else spec.cloudInit.sshAuthorizedKeys
      password := if .cloudInitPassword ∈ clears then none else spec.cloudInit.password
      sshPwauth := spec.cloudInit.sshPwauth
      provisioning := spec.cloudInit.provisioning }
  vmm :=
    { binary := if .vmmBinary ∈ clears then none else spec.vmm.binary
      firmware := spec.vmm.firmware
      extraArgs := if .vmmExtraArgs ∈ clears then [] else spec.vmm.extraArgs
      configOverlay := if .vmmConfigOverlay ∈ clears then none else spec.vmm.configOverlay }

/-- One clear takes its own leaf. -/
theorem cleared_applyClear (spec : MachineSpec) (c : SpecClear) (clears : List SpecClear) :
    cleared (spec.applyClear c) clears = cleared spec (c :: clears) := by
  cases c <;> simp [MachineSpec.applyClear, cleared]

theorem applyClears_eq (patch : MachineSpecPatch) (spec : MachineSpec) :
    patch.applyClears spec = cleared spec patch.clear := by
  unfold applyClears
  generalize patch.clear = clears
  induction clears generalizing spec with
  | nil => simp [cleared]
  | cons c clears ih => rw [List.foldl_cons, ih, cleared_applyClear]

theorem or_eq_optionalLeaf {α : Type} (clear : SpecClear) (value old : Option α) :
    value.or (if clear ∈ patch.clear then none else old) = patch.optionalLeaf clear value old := by
  cases value <;> rfl

/-- A list that is set is not cleared. -/
theorem mergeVector_eq_listLeaf {α : Type} {clear : SpecClear} {values : Option (List α)} (hvalid : patch.validate = .ok ())
    (hsets : patch.sets clear = values.isSome) (old : List α) :
    mergeVector (if clear ∈ patch.clear then [] else old) values .append = patch.listLeaf clear values old := by
  cases values with
  | some values =>
    have hnot : clear ∉ patch.clear := by
      intro hmem
      have hfalse := (validate_iff.mp hvalid).2.1 clear hmem
      rw [hsets] at hfalse
      cases hfalse
    rw [if_neg hnot]
    rfl
  | none => rfl

theorem any_isSome {α β : Type} (table : Option α) (field : α → Option β) :
    (table.any fun x => (field x).isSome) = (table.bind field).isSome := by
  cases table <;> rfl

/-- A patch that passes the check writes its leaves and no other. -/
theorem applied_applySets (hvalid : patch.validate = .ok ()) (spec : MachineSpec) :
    Applied patch spec (patch.applySets (patch.applyClears spec) .append) := by
  have hnetwork : ∀ below : NetworkSpec,
      (patch.network.map fun network => network.applyTo below .append).getD below =
        { mode := (patch.network.bind (·.mode)).getD below.mode
          forward := mergeVector below.forward (patch.network.bind (·.forward)) .append
          tap := (patch.network.bind (·.tap)).or below.tap
          mac := (patch.network.bind (·.mac)).or below.mac } := by
    intro below
    cases patch.network <;> rfl
  have hcloudInit : ∀ below : CloudInitSpec,
      (patch.cloudInit.map fun cloudInit => cloudInit.applyTo below .append).getD below =
        { userData := (patch.cloudInit.bind (·.userData)).or below.userData
          userDataInline := (patch.cloudInit.bind (·.userDataInline)).or below.userDataInline
          networkConfig := (patch.cloudInit.bind (·.networkConfig)).or below.networkConfig
          sshKeys := mergeVector below.sshKeys (patch.cloudInit.bind (·.sshKeys)) .append
          sshAuthorizedKeys := mergeVector below.sshAuthorizedKeys (patch.cloudInit.bind (·.sshAuthorizedKeys)) .append
          password := (patch.cloudInit.bind (·.password)).or below.password
          sshPwauth := (patch.cloudInit.bind (·.sshPwauth)).getD below.sshPwauth
          provisioning := (patch.cloudInit.bind (·.provisioning)).getD below.provisioning } := by
    intro below
    cases patch.cloudInit <;> rfl
  have hvmm : ∀ below : VmmSpec,
      (patch.vmm.map fun vmm => vmm.applyTo below .append).getD below =
        { binary := (patch.vmm.bind (·.binary)).or below.binary
          firmware := (patch.vmm.bind (·.firmware)).getD below.firmware
          extraArgs := mergeVector below.extraArgs (patch.vmm.bind (·.extraArgs)) .append
          configOverlay := (patch.vmm.bind (·.configOverlay)).or below.configOverlay } := by
    intro below
    cases patch.vmm <;> rfl
  simp only [applySets, hnetwork, hcloudInit, hvmm, applyClears_eq]
  constructor
  case image | cpus | memory | disk | user | mode | sshPwauth | provisioning | firmware => rfl
  case forward | sshKeys | sshAuthorizedKeys | extraArgs =>
    refine mergeVector_eq_listLeaf hvalid ?_ _
    exact any_isSome _ _
  case mounts => exact mergeVector_eq_listLeaf hvalid rfl _
  all_goals exact or_eq_optionalLeaf _ _ _

/-- **A patch is applied in whole or not at all.** It fails when it is not valid, with the error of the check and the spec as
it was; otherwise every leaf is what the patch makes of it. -/
theorem applyInPlace_exact (patch : MachineSpecPatch) (spec : MachineSpec) :
    (patch.validate = .ok () ↔
      patch.clear.Nodup ∧ (∀ c ∈ patch.clear, patch.sets c = false) ∧
      ∀ overlay ∈ patch.vmm.bind (·.configOverlay), overlay.isObject = true) ∧
    (∀ e, patch.validate = .error e → (patch.applyInPlace .append).runOn spec = (.error e, spec)) ∧
    (patch.validate = .ok () →
      ∃ spec', (patch.applyInPlace .append).runOn spec = (.ok (), spec') ∧ Applied patch spec spec') := by
  have hrun := applyInPlace_run patch .append spec
  refine ⟨validate_iff, fun e he => ?_, fun hvalid => ?_⟩
  · rw [hrun, applyToWithVectors, he]
    rfl
  · refine ⟨_, ?_, applied_applySets hvalid spec⟩
    rw [hrun, applyToWithVectors, hvalid]
    rfl

/-- The overlay of the patch takes the place of the overlay of the spec, and its members are not merged into it. -/
theorem overlay_not_merged :
    ¬ ∀ (patch : MachineSpecPatch) (spec spec' : MachineSpec), (patch.applyInPlace .append).runOn spec = (.ok (), spec') →
      ∀ old ∈ spec.vmm.configOverlay, ∀ new ∈ patch.vmm.bind (·.configOverlay),
        spec'.vmm.configOverlay = some (Vmm.applyMergePatch old new) := by
  intro h
  have hmerged := h { vmm := some { configOverlay := some (.obj [("serial", .bool true)]) } }
    { vmm := { configOverlay := some (.obj [("rng", .bool true)]) } } _ rfl _ rfl _ rfl
  revert hmerged
  decide

end MachineSpecPatch

end Firestone
