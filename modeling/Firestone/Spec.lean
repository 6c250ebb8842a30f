import Firestone.State
import Firestone.Lib.Json
import Mathlib.Data.List.Induction
import Mathlib.Data.List.Nodup

/-!
# Machine specs and their layers

A machine spec is put together from sparse layers: the built-in defaults, the global defaults, the machine's own
`firestone.toml` and the patch of an action. A layer first clears what it names and then sets what it holds; the machine
layer replaces lists, the others append to them.

* `MachineSpecPatch.applyToWithVectors` — one layer.
* `MachineSpec.fromLayers` — all of them, in their order.
* `MachineSpecPatch.ofSpec` — the machine layer that is persisted for a spec.
* `fromLayers_ofSpec` — loading it gives the spec back, whatever the global layer does.
-/

namespace Firestone

open Firestone.Lib

/-! ## Values -/

structure ByteSize where
  bytes : UInt64
  deriving DecidableEq, Repr

def ByteSize.mib : UInt64 := 1024 * 1024
def ByteSize.gib : UInt64 := 1024 * ByteSize.mib
def ByteSize.builtinMemory : ByteSize := ⟨2 * ByteSize.gib⟩
def ByteSize.builtinDisk : ByteSize := ⟨20 * ByteSize.gib⟩

structure ImageRef where
  text : String
  deriving DecidableEq, Repr

instance : Inhabited ImageRef := ⟨⟨"ubuntu:24.04"⟩⟩

structure MacAddr where
  octets : Vector UInt8 6
  deriving DecidableEq, Repr

inductive Firmware
  | auto | rhf | edk2 | path (path : String)
  deriving DecidableEq, Repr

inductive Protocol
  | tcp | udp
  deriving DecidableEq, Repr

inductive IpAddr
  | v4 (octets : Vector UInt8 4)
  | v6 (segments : Vector UInt16 8)
  deriving DecidableEq, Repr

/-- An inclusive range of ports. -/
structure PortRange where
  start : UInt16
  stop : UInt16
  start_ne_zero : start ≠ 0
  stop_ne_zero : stop ≠ 0
  start_le_stop : start ≤ stop
  deriving DecidableEq

def PortRange.len (range : PortRange) : Nat := range.stop.toNat - range.start.toNat + 1

structure PortForward where
  protocol : Protocol
  bind : Option IpAddr
  host : PortRange
  guest : PortRange
  len_eq : host.len = guest.len
  deriving DecidableEq

inductive NetMode
  | passt | tap | none
  deriving DecidableEq, Repr

structure MountSpec where
  host : String
  guest : String
  readonly : Bool
  tag : Option String
  deriving DecidableEq, Repr

/-! ## Specs -/

structure NetworkSpec where
  mode : NetMode := .passt
  forward : List PortForward := []
  tap : Option String := none
  mac : Option MacAddr := none
  deriving DecidableEq

structure CloudInitSpec where
  userData : Option String := none
  userDataInline : Option String := none
  networkConfig : Option String := none
  sshKeys : List String := []
  sshAuthorizedKeys : List String := []
  password : Option String := none
  sshPwauth : Bool := false
  provisioning : Bool := true
  deriving DecidableEq

structure VmmSpec where
  binary : Option String := none
  firmware : Firmware := .auto
  extraArgs : List String := []
  configOverlay : Option Json := none
  deriving DecidableEq

/-- The desired state of a machine. -/
structure MachineSpec where
  image : ImageRef := default
  arch : Option Arch := none
  cpus : UInt8 := 2
  cpusMax : Option UInt8 := none
  memory : ByteSize := .builtinMemory
  memoryMax : Option ByteSize := none
  disk : ByteSize := .builtinDisk
  user : String := "root"
  network : NetworkSpec := {}
  mounts : List MountSpec := []
  cloudInit : CloudInitSpec := {}
  vmm : VmmSpec := {}
  deriving DecidableEq

/-- What a layer may clear. -/
inductive SpecClear
  | arch | networkForward | networkTap | networkMac | mount | cloudInitUserData | cloudInitUserDataInline
  | cloudInitNetworkConfig | cloudInitSshKeys | cloudInitSshAuthorizedKeys | cloudInitPassword | vmmBinary
  | vmmExtraArgs | vmmConfigOverlay | cpusMax | memoryMax
  deriving DecidableEq, Repr

def SpecClear.asStr : SpecClear → String
  | .arch => "arch"
  | .networkForward => "network.forward"
  | .networkTap => "network.tap"
  | .networkMac => "network.mac"
  | .mount => "mount"
  | .cloudInitUserData => "cloud_init.user_data"
  | .cloudInitUserDataInline => "cloud_init.user_data_inline"
  | .cloudInitNetworkConfig => "cloud_init.network_config"
  | .cloudInitSshKeys => "cloud_init.ssh_keys"
  | .cloudInitSshAuthorizedKeys => "cloud_init.ssh_authorized_keys"
  | .cloudInitPassword => "cloud_init.password"
  | .vmmBinary => "vmm.binary"
  | .vmmExtraArgs => "vmm.extra_args"
  | .vmmConfigOverlay => "vmm.config_overlay"
  | .cpusMax => "cpus_max"
  | .memoryMax => "memory_max"

/-! ## Layers -/

structure NetworkSpecPatch where
  mode : Option NetMode := none
  forward : Option (List PortForward) := none
  tap : Option String := none
  mac : Option MacAddr := none
  deriving DecidableEq

structure CloudInitSpecPatch where
  userData : Option String := none
  userDataInline : Option String := none
  networkConfig : Option String := none
  sshKeys : Option (List String) := none
  sshAuthorizedKeys : Option (List String) := none
  password : Option String := none
  sshPwauth : Option Bool := none
  provisioning : Option Bool := none
  deriving DecidableEq

structure VmmSpecPatch where
  binary : Option String := none
  firmware : Option Firmware := none
  extraArgs : Option (List String) := none
  configOverlay : Option Json := none
  deriving DecidableEq

/-- A sparse layer. -/
structure MachineSpecPatch where
  clear : List SpecClear := []
  image : Option ImageRef := none
  arch : Option Arch := none
  cpus : Option UInt8 := none
  cpusMax : Option UInt8 := none
  memory : Option ByteSize := none
  memoryMax : Option ByteSize := none
  disk : Option ByteSize := none
  user : Option String := none
  network : Option NetworkSpecPatch := none
  mounts : Option (List MountSpec) := none
  cloudInit : Option CloudInitSpecPatch := none
  vmm : Option VmmSpecPatch := none
  deriving DecidableEq

inductive VectorMerge
  | append | replace
  deriving DecidableEq, Repr

def mergeVector {α : Type} (target : List α) (values : Option (List α)) (merge : VectorMerge) : List α :=
  match values, merge with
  | none, _ => target
  | some values, .append => target ++ values
  | some values, .replace => values

def NetworkSpecPatch.applyTo (patch : NetworkSpecPatch) (spec : NetworkSpec) (merge : VectorMerge) : NetworkSpec where
  mode := patch.mode.getD spec.mode
  forward := mergeVector spec.forward patch.forward merge
  tap := patch.tap.or spec.tap
  mac := patch.mac.or spec.mac

def CloudInitSpecPatch.applyTo (patch : CloudInitSpecPatch) (spec : CloudInitSpec) (merge : VectorMerge) :
    CloudInitSpec where
  userData := patch.userData.or spec.userData
  userDataInline := patch.userDataInline.or spec.userDataInline
  networkConfig := patch.networkConfig.or spec.networkConfig
  sshKeys := mergeVector spec.sshKeys patch.sshKeys merge
  sshAuthorizedKeys := mergeVector spec.sshAuthorizedKeys patch.sshAuthorizedKeys merge
  password := patch.password.or spec.password
  sshPwauth := patch.sshPwauth.getD spec.sshPwauth
  provisioning := patch.provisioning.getD spec.provisioning

/-- The overlay of a layer takes the place of the one below; it is merged only into the VmConfig. -/
def VmmSpecPatch.applyTo (patch : VmmSpecPatch) (spec : VmmSpec) (merge : VectorMerge) : VmmSpec where
  binary := patch.binary.or spec.binary
  firmware := patch.firmware.getD spec.firmware
  extraArgs := mergeVector spec.extraArgs patch.extraArgs merge
  configOverlay := patch.configOverlay.or spec.configOverlay

def validateOverlay (overlay : Json) (key : String) : Res Unit :=
  if overlay.isObject then .ok ()
  else .error ((FirestoneError.new .invalidSpec (key ++ " must be a JSON object")).withHint
    ("set " ++ key ++ " to a JSON object such as \x7b\x7d"))

namespace MachineSpecPatch

/-- The layer holds a value for the field. -/
def sets (patch : MachineSpecPatch) : SpecClear → Bool
  | .arch => patch.arch.isSome
  | .networkForward => patch.network.any fun network => network.forward.isSome
  | .networkTap => patch.network.any fun network => network.tap.isSome
  | .networkMac => patch.network.any fun network => network.mac.isSome
  | .mount => patch.mounts.isSome
  | .cloudInitUserData => patch.cloudInit.any fun cloudInit => cloudInit.userData.isSome
  | .cloudInitUserDataInline => patch.cloudInit.any fun cloudInit => cloudInit.userDataInline.isSome
  | .cloudInitSshAuthorizedKeys => patch.cloudInit.any fun cloudInit => cloudInit.sshAuthorizedKeys.isSome
  | .cloudInitPassword => patch.cloudInit.any fun cloudInit => cloudInit.password.isSome
  | .cloudInitNetworkConfig => patch.cloudInit.any fun cloudInit => cloudInit.networkConfig.isSome
  | .cloudInitSshKeys => patch.cloudInit.any fun cloudInit => cloudInit.sshKeys.isSome
  | .vmmBinary => patch.vmm.any fun vmm => vmm.binary.isSome
  | .vmmExtraArgs => patch.vmm.any fun vmm => vmm.extraArgs.isSome
  | .vmmConfigOverlay => patch.vmm.any fun vmm => vmm.configOverlay.isSome
  | .cpusMax => patch.cpusMax.isSome
  | .memoryMax => patch.memoryMax.isSome

/-- The check of the clear list, with what it has seen so far. -/
def checkClears (patch : MachineSpecPatch) (seen : List SpecClear) : List SpecClear → Res Unit
  | [] => .ok ()
  | clear :: rest =>
    if clear ∈ seen then
      .error ((FirestoneError.new .invalidSpec ("clear path '" ++ clear.asStr ++ "' appears more than once")).withHint
        ("keep one '" ++ clear.asStr ++ "' entry in clear"))
    else if patch.sets clear then
      .error ((FirestoneError.new .invalidSpec
        ("patch sets and clears '" ++ clear.asStr ++ "' in the same layer")).withHint
        ("remove '" ++ clear.asStr ++ "' from clear or omit its value"))
    else patch.checkClears (clear :: seen) rest

def validate (patch : MachineSpecPatch) : Res Unit := do
  match patch.vmm.bind (·.configOverlay) with
  | some overlay => validateOverlay overlay "vmm.config_overlay"
  | none => .ok ()
  patch.checkClears [] patch.clear

end MachineSpecPatch

def MachineSpec.applyClear (spec : MachineSpec) : SpecClear → MachineSpec
  | .arch => { spec with arch := none }
  | .networkForward => { spec with network := { spec.network with forward := [] } }
  | .networkTap => { spec with network := { spec.network with tap := none } }
  | .networkMac => { spec with network := { spec.network with mac := none } }
  | .mount => { spec with mounts := [] }
  | .cloudInitUserData => { spec with cloudInit := { spec.cloudInit with userData := none } }
  | .cloudInitUserDataInline => { spec with cloudInit := { spec.cloudInit with userDataInline := none } }
  | .cloudInitNetworkConfig => { spec with cloudInit := { spec.cloudInit with networkConfig := none } }
  | .cloudInitSshKeys => { spec with cloudInit := { spec.cloudInit with sshKeys := [] } }
  | .cloudInitSshAuthorizedKeys => { spec with cloudInit := { spec.cloudInit with sshAuthorizedKeys := [] } }
  | .cloudInitPassword => { spec with cloudInit := { spec.cloudInit with password := none } }
  | .vmmBinary => { spec with vmm := { spec.vmm with binary := none } }
  | .vmmExtraArgs => { spec with vmm := { spec.vmm with extraArgs := [] } }
  | .vmmConfigOverlay => { spec with vmm := { spec.vmm with configOverlay := none } }
  | .cpusMax => { spec with cpusMax := none }
  | .memoryMax => { spec with memoryMax := none }

namespace MachineSpecPatch

def applyClears (patch : MachineSpecPatch) (spec : MachineSpec) : MachineSpec :=
  patch.clear.foldl MachineSpec.applyClear spec

/-- What the layer sets, once its clears are made. -/
def applySets (patch : MachineSpecPatch) (spec : MachineSpec) (merge : VectorMerge) : MachineSpec where
  image := patch.image.getD spec.image
  arch := patch.arch.or spec.arch
  cpus := patch.cpus.getD spec.cpus
  cpusMax := patch.cpusMax.or spec.cpusMax
  memory := patch.memory.getD spec.memory
  memoryMax := patch.memoryMax.or spec.memoryMax
  disk := patch.disk.getD spec.disk
  user := patch.user.getD spec.user
  network := (patch.network.map fun network => network.applyTo spec.network merge).getD spec.network
  mounts := mergeVector spec.mounts patch.mounts merge
  cloudInit := (patch.cloudInit.map fun cloudInit => cloudInit.applyTo spec.cloudInit merge).getD spec.cloudInit
  vmm := (patch.vmm.map fun vmm => vmm.applyTo spec.vmm merge).getD spec.vmm

def applyToWithVectors (patch : MachineSpecPatch) (spec : MachineSpec) (merge : VectorMerge) : Res MachineSpec := do
  patch.validate
  return patch.applySets (patch.applyClears spec) merge

/-- `apply_to`: a patch of the command line or of the API. -/
def applyTo (patch : MachineSpecPatch) (spec : MachineSpec) : Res MachineSpec := patch.applyToWithVectors spec .append

end MachineSpecPatch

/-- `MachineSpec::from_layers`. -/
def MachineSpec.fromLayers (globalDefaults machine patch : MachineSpecPatch) : Res MachineSpec := do
  let spec ← globalDefaults.applyToWithVectors {} .append
  let spec ← machine.applyToWithVectors spec .replace
  patch.applyToWithVectors spec .append

/-! ## The persisted layer -/

/-- The optional field is absent. Lists are never absent. -/
def MachineSpec.lacks (spec : MachineSpec) : SpecClear → Bool
  | .arch => spec.arch.isNone
  | .networkTap => spec.network.tap.isNone
  | .networkMac => spec.network.mac.isNone
  | .cloudInitUserData => spec.cloudInit.userData.isNone
  | .cloudInitUserDataInline => spec.cloudInit.userDataInline.isNone
  | .cloudInitNetworkConfig => spec.cloudInit.networkConfig.isNone
  | .cloudInitPassword => spec.cloudInit.password.isNone
  | .vmmBinary => spec.vmm.binary.isNone
  | .vmmConfigOverlay => spec.vmm.configOverlay.isNone
  | .cpusMax => spec.cpusMax.isNone
  | .memoryMax => spec.memoryMax.isNone
  | .networkForward | .mount | .cloudInitSshKeys | .cloudInitSshAuthorizedKeys | .vmmExtraArgs => false

/-- The optional fields, in the order in which the persisted layer clears them. -/
def optionalFields : List SpecClear :=
  [.arch, .networkTap, .networkMac, .cloudInitUserData, .cloudInitUserDataInline, .cloudInitNetworkConfig,
    .cloudInitPassword, .vmmBinary, .vmmConfigOverlay, .cpusMax, .memoryMax]

/-- `From<&MachineSpec>`: every value is set, every absent one is cleared. -/
def MachineSpecPatch.ofSpec (spec : MachineSpec) : MachineSpecPatch where
  clear := optionalFields.filter spec.lacks
  image := some spec.image
  arch := spec.arch
  cpus := some spec.cpus
  cpusMax := spec.cpusMax
  memory := some spec.memory
  memoryMax := spec.memoryMax
  disk := some spec.disk
  user := some spec.user
  network := some
    { mode := some spec.network.mode, forward := some spec.network.forward, tap := spec.network.tap
      mac := spec.network.mac }
  mounts := some spec.mounts
  cloudInit := some
    { userData := spec.cloudInit.userData, userDataInline := spec.cloudInit.userDataInline
      networkConfig := spec.cloudInit.networkConfig, sshKeys := some spec.cloudInit.sshKeys
      sshAuthorizedKeys := some spec.cloudInit.sshAuthorizedKeys, password := spec.cloudInit.password
      sshPwauth := some spec.cloudInit.sshPwauth, provisioning := some spec.cloudInit.provisioning }
  vmm := some
    { binary := spec.vmm.binary, firmware := some spec.vmm.firmware, extraArgs := some spec.vmm.extraArgs
      configOverlay := spec.vmm.configOverlay }

/-! ## The persisted layer gives the spec back -/

namespace MachineSpecPatch

theorem checkClears_eq_ok {patch : MachineSpecPatch} {l : List SpecClear} (hnodup : l.Nodup)
    (hsets : ∀ c ∈ l, patch.sets c = false) {seen : List SpecClear} (hseen : ∀ c ∈ l, c ∉ seen) :
    patch.checkClears seen l = .ok () := by
  induction l generalizing seen with
  | nil => rfl
  | cons c l ih =>
    obtain ⟨hc, hnodup⟩ := List.nodup_cons.mp hnodup
    rw [checkClears, if_neg (hseen c (by simp)), if_neg (by simp [hsets c (by simp)])]
    refine ih hnodup (fun d hd => hsets d (by simp [hd])) fun d hd hmem => ?_
    rcases List.mem_cons.mp hmem with rfl | hmem
    · exact hc hd
    · exact hseen d (by simp [hd]) hmem

/-- The persisted layer never clears what it sets. -/
theorem sets_ofSpec {spec : MachineSpec} {c : SpecClear} (h : spec.lacks c = true) : (ofSpec spec).sets c = false := by
  cases c <;> simp_all [MachineSpec.lacks, ofSpec, sets]

theorem validate_ofSpec {spec : MachineSpec} (h : ∀ overlay ∈ spec.vmm.configOverlay, overlay.isObject = true) :
    (ofSpec spec).validate = .ok () := by
  have hclears : (ofSpec spec).checkClears [] (ofSpec spec).clear = .ok () :=
    checkClears_eq_ok (List.Nodup.filter _ (by decide)) (fun c hc => sets_ofSpec (List.mem_filter.mp hc).2) (by simp)
  have hoverlay : (ofSpec spec).vmm.bind (·.configOverlay) = spec.vmm.configOverlay := rfl
  unfold validate
  rw [hoverlay, hclears]
  cases hc : spec.vmm.configOverlay with
  | none => rfl
  | some overlay =>
    dsimp only
    rw [validateOverlay, if_pos (h overlay hc)]
    rfl

/-- A field that one clear empties and no other touches. -/
theorem foldl_applyClear {α : Type} {field : MachineSpec → α} {clear : SpecClear} {empty : α}
    (hhit : ∀ s, field (MachineSpec.applyClear s clear) = empty)
    (hmiss : ∀ s other, other = clear ∨ field (MachineSpec.applyClear s other) = field s) (l : List SpecClear)
    (s : MachineSpec) :
    field (l.foldl MachineSpec.applyClear s) = if clear ∈ l then empty else field s := by
  -- The last clear is made last, so the list is taken from its end.
  induction l using List.reverseRecOn with
  | nil => simp
  | append_singleton l last ih =>
    rw [List.foldl_append, List.foldl_cons, List.foldl_nil]
    by_cases h : last = clear
    · subst h
      simp [hhit]
    · rw [(hmiss _ last).resolve_left h, ih]
      simp [Ne.symm h]

/-- An optional field is set, or else it is cleared. -/
theorem absorbs (spec below : MachineSpec) {α : Type} (field : MachineSpec → Option α) (clear : SpecClear)
    (hopt : clear ∈ optionalFields) (hlacks : spec.lacks clear = (field spec).isNone)
    (hhit : ∀ s, field (MachineSpec.applyClear s clear) = none)
    (hmiss : ∀ s other, other = clear ∨ field (MachineSpec.applyClear s other) = field s) :
    (field spec).or (field ((ofSpec spec).applyClears below)) = field spec := by
  cases hvalue : field spec with
  | some value => rfl
  | none =>
    have hmem : clear ∈ (ofSpec spec).clear := by simp [ofSpec, hopt, hlacks, hvalue]
    rw [Option.none_or, applyClears, foldl_applyClear hhit hmiss, if_pos hmem]

/-- Over any spec below it, the persisted layer leaves the spec it was made from. -/
theorem applySets_ofSpec (spec below : MachineSpec) :
    (ofSpec spec).applySets ((ofSpec spec).applyClears below) .replace = spec := by
  have harch := absorbs spec below (·.arch) .arch (by decide) rfl (fun _ => rfl)
    (by intro s other; cases other <;> simp [MachineSpec.applyClear])
  have hcpus := absorbs spec below (·.cpusMax) .cpusMax (by decide) rfl (fun _ => rfl)
    (by intro s other; cases other <;> simp [MachineSpec.applyClear])
  have hmemory := absorbs spec below (·.memoryMax) .memoryMax (by decide) rfl (fun _ => rfl)
    (by intro s other; cases other <;> simp [MachineSpec.applyClear])
  have htap := absorbs spec below (·.network.tap) .networkTap (by decide) rfl (fun _ => rfl)
    (by intro s other; cases other <;> simp [MachineSpec.applyClear])
  have hmac := absorbs spec below (·.network.mac) .networkMac (by decide) rfl (fun _ => rfl)
    (by intro s other; cases other <;> simp [MachineSpec.applyClear])
  have huserData := absorbs spec below (·.cloudInit.userData) .cloudInitUserData (by decide) rfl (fun _ => rfl)
    (by intro s other; cases other <;> simp [MachineSpec.applyClear])
  have hinline := absorbs spec below (·.cloudInit.userDataInline) .cloudInitUserDataInline (by decide) rfl (fun _ => rfl)
    (by intro s other; cases other <;> simp [MachineSpec.applyClear])
  have hnetwork := absorbs spec below (·.cloudInit.networkConfig) .cloudInitNetworkConfig (by decide) rfl (fun _ => rfl)
    (by intro s other; cases other <;> simp [MachineSpec.applyClear])
  have hpassword := absorbs spec below (·.cloudInit.password) .cloudInitPassword (by decide) rfl (fun _ => rfl)
    (by intro s other; cases other <;> simp [MachineSpec.applyClear])
  have hbinary := absorbs spec below (·.vmm.binary) .vmmBinary (by decide) rfl (fun _ => rfl)
    (by intro s other; cases other <;> simp [MachineSpec.applyClear])
  have hoverlay := absorbs spec below (·.vmm.configOverlay) .vmmConfigOverlay (by decide) rfl (fun _ => rfl)
    (by intro s other; cases other <;> simp [MachineSpec.applyClear])
  -- Fields that are always set do not depend on what is below.
  generalize (ofSpec spec).applyClears below = cleared at *
  simp only [applySets, ofSpec, NetworkSpecPatch.applyTo, CloudInitSpecPatch.applyTo, VmmSpecPatch.applyTo, mergeVector,
    Option.map_some, Option.getD_some, harch, hcpus, hmemory, htap, hmac, huserData, hinline, hnetwork, hpassword, hbinary,
    hoverlay]

/-- The empty layer changes nothing. -/
theorem applyToWithVectors_empty (spec : MachineSpec) (merge : VectorMerge) :
    ({} : MachineSpecPatch).applyToWithVectors spec merge = .ok spec := by
  cases spec
  rfl

end MachineSpecPatch

/-- **Re-saving a machine never drifts with the global configuration.** -/
theorem fromLayers_ofSpec (spec : MachineSpec) (h : ∀ overlay ∈ spec.vmm.configOverlay, overlay.isObject = true)
    (globalDefaults : MachineSpecPatch) (hglobal : globalDefaults.validate = .ok ()) :
    MachineSpec.fromLayers globalDefaults (.ofSpec spec) {} = .ok spec := by
  have hfirst : globalDefaults.applyToWithVectors {} .append =
      .ok (globalDefaults.applySets (globalDefaults.applyClears {}) .append) := by
    rw [MachineSpecPatch.applyToWithVectors, hglobal]
    rfl
  have hmachine : ∀ below, (MachineSpecPatch.ofSpec spec).applyToWithVectors below .replace = .ok spec := by
    intro below
    rw [MachineSpecPatch.applyToWithVectors, MachineSpecPatch.validate_ofSpec h]
    exact congrArg Except.ok (MachineSpecPatch.applySets_ofSpec spec below)
  rw [MachineSpec.fromLayers, hfirst]
  change ((MachineSpecPatch.ofSpec spec).applyToWithVectors _ .replace >>= fun s =>
    ({} : MachineSpecPatch).applyToWithVectors s .append) = .ok spec
  rw [hmachine]
  exact MachineSpecPatch.applyToWithVectors_empty spec .append

/-- A spec with an overlay and a cleared tap under a global layer that sets the tap, appends a mount and clears the
overlay. -/
theorem fromLayers_ofSpec_overlay :
    MachineSpec.fromLayers
      { clear := [.vmmConfigOverlay], mounts := some [⟨"/srv", "/srv", false, none⟩]
        network := some { mode := some .tap, tap := some "tap0" } }
      (.ofSpec { cpus := 4, vmm := { configOverlay := some (.obj [("balloon", .null)]) } }) {} =
      .ok { cpus := 4, vmm := { configOverlay := some (.obj [("balloon", .null)]) } } :=
  fromLayers_ofSpec _ (by simp [Json.isObject]) _ rfl

end Firestone
