import Firestone.Lib.Toml
import Firestone.Oci.References
import Firestone.Spec.Values

/-!
# Spec documents

Machine layers and the global configuration are TOML documents. `to_toml` takes the config overlay out of the value, whose
nulls TOML cannot express, and puts its JSON text in its place; `from_toml` takes the text out of the document again
before it decodes the rest.

* `MachineSpecPatch.toToml`, `MachineSpecPatch.fromToml`, `GlobalConfig.toToml`, `GlobalConfig.fromToml` — the documents.
* `MachineSpecPatch.decode_encode`, `GlobalConfig.decode_encode` — the encoded values without the overlay.
* `documents_roundTrip` — what is written is read back.

The texts of TOML and JSON values are made and read by libraries, which are a parameter.
-/

namespace Firestone

open Firestone.Lib Firestone.Lib.Toml

/-! ## Global configuration -/

structure StartConfig where
  timeoutFirstBoot : HumanDuration := ⟨300, by decide⟩
  timeout : HumanDuration := ⟨60, by decide⟩
  deriving DecidableEq

structure StopConfig where
  timeout : HumanDuration := ⟨30, by decide⟩
  deriving DecidableEq

inductive ColorMode
  | auto | always | never
  deriving DecidableEq, Repr

structure UiConfig where
  color : ColorMode := .auto
  deriving DecidableEq

structure ImagesConfig where
  catalog : List String := []
  insecureRegistries : List String := []
  deriving DecidableEq

structure GlobalConfig where
  defaults : MachineSpecPatch := {}
  start : StartConfig := {}
  stop : StopConfig := {}
  ui : UiConfig := {}
  images : ImagesConfig := {}
  deriving DecidableEq

/-! ## Encoding -/

def strings (l : List String) : Toml := .array (l.map .string)

def Arch.asStr : Arch → String
  | .x86_64 => "x86_64"
  | .aarch64 => "aarch64"

def NetMode.name : NetMode → String
  | .passt => "passt"
  | .tap => "tap"
  | .none => "none"

def ColorMode.name : ColorMode → String
  | .auto => "auto"
  | .always => "always"
  | .never => "never"

def NetworkSpecPatch.fields (p : NetworkSpecPatch) : List (String × Option Toml) :=
  [("forward", p.forward.map fun l => .array (l.map fun forward => .string forward.display)),
    ("mac", p.mac.map fun mac => .string mac.display),
    ("mode", p.mode.map fun mode => .string mode.name),
    ("tap", p.tap.map .string)]

/-- The tag is left out when there is none. -/
def MountSpec.fields (m : MountSpec) : List (String × Option Toml) :=
  [("guest", some (.string m.guest)), ("host", some (.string m.host)), ("readonly", some (.boolean m.readonly)),
    ("tag", m.tag.map .string)]

def CloudInitSpecPatch.fields (p : CloudInitSpecPatch) : List (String × Option Toml) :=
  [("network_config", p.networkConfig.map .string), ("password", p.password.map .string),
    ("provisioning", p.provisioning.map .boolean), ("ssh_authorized_keys", p.sshAuthorizedKeys.map strings),
    ("ssh_keys", p.sshKeys.map strings), ("ssh_pwauth", p.sshPwauth.map .boolean), ("user_data", p.userData.map .string),
    ("user_data_inline", p.userDataInline.map .string)]

/-- The overlay has been taken out. -/
def VmmSpecPatch.fields (p : VmmSpecPatch) : List (String × Option Toml) :=
  [("binary", p.binary.map .string), ("extra_args", p.extraArgs.map strings),
    ("firmware", p.firmware.map fun firmware => .string firmware.display)]

def NetworkSpecPatch.encode (p : NetworkSpecPatch) : Toml := .table (present p.fields)
def MountSpec.encode (m : MountSpec) : Toml := .table (present m.fields)
def CloudInitSpecPatch.encode (p : CloudInitSpecPatch) : Toml := .table (present p.fields)
def VmmSpecPatch.encode (p : VmmSpecPatch) : Toml := .table (present p.fields)

def ByteSize.encode (size : ByteSize) : Toml := .string size.display

def MachineSpecPatch.fields (p : MachineSpecPatch) : List (String × Option Toml) :=
  [("arch", p.arch.map fun arch => .string arch.asStr),
    ("clear", if p.clear = [] then none else some (.array (p.clear.map fun clear => .string clear.asStr))),
    ("cloud_init", p.cloudInit.map CloudInitSpecPatch.encode),
    ("cpus", p.cpus.map fun n => .integer n.toNat),
    ("cpus_max", p.cpusMax.map fun n => .integer n.toNat),
    ("disk", p.disk.map ByteSize.encode),
    ("image", p.image.map fun image => .string image.text),
    ("memory", p.memory.map ByteSize.encode),
    ("memory_max", p.memoryMax.map ByteSize.encode),
    ("mount", p.mounts.map fun l => .array (l.map MountSpec.encode)),
    ("network", p.network.map NetworkSpecPatch.encode),
    ("user", p.user.map .string),
    ("vmm", p.vmm.map VmmSpecPatch.encode)]

def MachineSpecPatch.encode (p : MachineSpecPatch) : Toml := .table (present p.fields)

def HumanDuration.encode (duration : HumanDuration) : Toml := .string duration.display

def StartConfig.encode (c : StartConfig) : Toml :=
  .table (present [("timeout", some c.timeout.encode), ("timeout_first_boot", some c.timeoutFirstBoot.encode)])

def StopConfig.encode (c : StopConfig) : Toml := .table (present [("timeout", some c.timeout.encode)])

def UiConfig.encode (c : UiConfig) : Toml := .table (present [("color", some (.string c.color.name))])

def ImagesConfig.encode (c : ImagesConfig) : Toml :=
  .table (present [("catalog", some (strings c.catalog)), ("insecure_registries", some (strings c.insecureRegistries))])

def GlobalConfig.fields (g : GlobalConfig) : List (String × Option Toml) :=
  [("defaults", some g.defaults.encode), ("images", some g.images.encode), ("start", some g.start.encode),
    ("stop", some g.stop.encode), ("ui", some g.ui.encode)]

def GlobalConfig.encode (g : GlobalConfig) : Toml := .table (present g.fields)

/-! ## Decoding -/

/-- The value with a name. -/
def named {α : Type} (name : α → String) (values : List α) (v : Toml) : Option α :=
  v.asString.bind fun s => values.find? fun x => name x = s

def SpecClear.all : List SpecClear :=
  [.arch, .networkForward, .networkTap, .networkMac, .mount, .cloudInitUserData, .cloudInitUserDataInline,
    .cloudInitNetworkConfig, .cloudInitSshKeys, .cloudInitSshAuthorizedKeys, .cloudInitPassword, .vmmBinary,
    .vmmExtraArgs, .vmmConfigOverlay, .cpusMax, .memoryMax]

/-- A size is a string or a number of MiB. -/
def ByteSize.decode : Toml → Option ByteSize
  | .integer n => if 0 ≤ n then ByteSize.fromUnits ByteSize.mib n.toNat else none
  | .string s => ByteSize.fromStr s
  | _ => none

def decodeU8 (v : Toml) : Option UInt8 := (asNat 256 v).map UInt8.ofNat

def NetworkSpecPatch.names : List String := ["mode", "forward", "tap", "mac"]

def NetworkSpecPatch.decode (v : Toml) : Option NetworkSpecPatch := do
  let ms ← v.table? NetworkSpecPatch.names
  let mode ← field ms "mode" (named NetMode.name [.passt, .tap, .none])
  let forward ← field ms "forward" (asList (asText fun s => (PortForward.fromStr s).toOption))
  let tap ← field ms "tap" asString
  let mac ← field ms "mac" (asText MacAddr.fromStr)
  some { mode, forward, tap, mac }

def MountSpec.names : List String := ["host", "guest", "readonly", "tag"]

def MountSpec.decode (v : Toml) : Option MountSpec := do
  let ms ← v.table? MountSpec.names
  let host ← (← field ms "host" asString)
  let guest ← (← field ms "guest" asString)
  let readonly ← field ms "readonly" asBool
  let tag ← field ms "tag" asString
  some { host, guest, readonly := readonly.getD false, tag }

def CloudInitSpecPatch.names : List String :=
  ["user_data", "user_data_inline", "network_config", "ssh_keys", "ssh_authorized_keys", "password", "ssh_pwauth",
    "provisioning"]

def CloudInitSpecPatch.decode (v : Toml) : Option CloudInitSpecPatch := do
  let ms ← v.table? CloudInitSpecPatch.names
  let userData ← field ms "user_data" asString
  let userDataInline ← field ms "user_data_inline" asString
  let networkConfig ← field ms "network_config" asString
  let sshKeys ← field ms "ssh_keys" (asList asString)
  let sshAuthorizedKeys ← field ms "ssh_authorized_keys" (asList asString)
  let password ← field ms "password" asString
  let sshPwauth ← field ms "ssh_pwauth" asBool
  let provisioning ← field ms "provisioning" asBool
  some { userData, userDataInline, networkConfig, sshKeys, sshAuthorizedKeys, password, sshPwauth, provisioning }

/-- The overlay has been taken out of the document before, so its key is not there. -/
def VmmSpecPatch.names : List String := ["binary", "firmware", "extra_args"]

def VmmSpecPatch.decode (v : Toml) : Option VmmSpecPatch := do
  let ms ← v.table? VmmSpecPatch.names
  let binary ← field ms "binary" asString
  let firmware ← field ms "firmware" (asText Firmware.fromStr)
  let extraArgs ← field ms "extra_args" (asList asString)
  some { binary, firmware, extraArgs }

def MachineSpecPatch.names : List String :=
  ["clear", "image", "arch", "cpus", "cpus_max", "memory", "memory_max", "disk", "user", "network", "mount", "cloud_init",
    "vmm"]

/-- The fields are read through a record of their own, then the layer is checked. -/
def MachineSpecPatch.decode (v : Toml) : Option MachineSpecPatch := do
  let ms ← v.table? MachineSpecPatch.names
  let clear ← field ms "clear" (asList (named SpecClear.asStr SpecClear.all))
  let image ← field ms "image" asString
  let arch ← field ms "arch" (named Arch.asStr [.x86_64, .aarch64])
  let cpus ← field ms "cpus" decodeU8
  let cpusMax ← field ms "cpus_max" decodeU8
  let memory ← field ms "memory" ByteSize.decode
  let memoryMax ← field ms "memory_max" ByteSize.decode
  let disk ← field ms "disk" ByteSize.decode
  let user ← field ms "user" asString
  let network ← field ms "network" NetworkSpecPatch.decode
  let mounts ← field ms "mount" (asList MountSpec.decode)
  let cloudInit ← field ms "cloud_init" CloudInitSpecPatch.decode
  let vmm ← field ms "vmm" VmmSpecPatch.decode
  let patch : MachineSpecPatch :=
    { clear := clear.getD [], image := image.map ImageRef.mk, arch, cpus, cpusMax, memory, memoryMax, disk, user, network,
      mounts, cloudInit, vmm }
  if patch.validate.isOk then some patch else none

def StartConfig.decode (v : Toml) : Option StartConfig := do
  let ms ← v.table? ["timeout_first_boot", "timeout"]
  let first ← field ms "timeout_first_boot" (asText HumanDuration.fromStr)
  let timeout ← field ms "timeout" (asText HumanDuration.fromStr)
  let default : StartConfig := {}
  some ⟨first.getD default.timeoutFirstBoot, timeout.getD default.timeout⟩

def StopConfig.decode (v : Toml) : Option StopConfig := do
  let ms ← v.table? ["timeout"]
  let timeout ← field ms "timeout" (asText HumanDuration.fromStr)
  let default : StopConfig := {}
  some ⟨timeout.getD default.timeout⟩

def UiConfig.decode (v : Toml) : Option UiConfig := do
  let ms ← v.table? ["color"]
  let color ← field ms "color" (named ColorMode.name [.auto, .always, .never])
  some ⟨color.getD .auto⟩

def ImagesConfig.decode (v : Toml) : Option ImagesConfig := do
  let ms ← v.table? ["catalog", "insecure_registries"]
  let catalog ← field ms "catalog" (asList asString)
  let insecureRegistries ← field ms "insecure_registries" (asList asString)
  some ⟨catalog.getD [], insecureRegistries.getD []⟩

def GlobalConfig.names : List String := ["defaults", "start", "stop", "ui", "images"]

def GlobalConfig.decode (v : Toml) : Option GlobalConfig := do
  let ms ← v.table? GlobalConfig.names
  let defaults ← field ms "defaults" MachineSpecPatch.decode
  let start ← field ms "start" StartConfig.decode
  let stop ← field ms "stop" StopConfig.decode
  let ui ← field ms "ui" UiConfig.decode
  let images ← field ms "images" ImagesConfig.decode
  some ⟨defaults.getD {}, start.getD {}, stop.getD {}, ui.getD {}, images.getD {}⟩

/-! ## Decoding what was encoded -/

/-- The values of the layer can be constructed. -/
structure MachineSpecPatch.Wf (p : MachineSpecPatch) : Prop where
  memory : ∀ size, p.memory = some size → size.Wf
  memoryMax : ∀ size, p.memoryMax = some size → size.Wf
  disk : ∀ size, p.disk = some size → size.Wf
  firmware : ∀ vmm firmware, p.vmm = some vmm → vmm.firmware = some firmware → firmware.Wf

/-- The layer without its overlay. -/
def MachineSpecPatch.withoutOverlay (p : MachineSpecPatch) : MachineSpecPatch :=
  { p with vmm := p.vmm.map fun vmm => { vmm with configOverlay := none } }

theorem asText_string {α : Type} {parse : String → Option α} {text : String} {a : α} (h : parse text = some a) :
    asText parse (.string text) = some a := h

theorem asList_strings (l : List String) : asList asString (strings l) = some l := asList_map fun _ _ => rfl

theorem named_name {α : Type} {name : α → String} {values : List α} (h : ∀ a ∈ values,
    (values.find? fun x => name x = name a) = some a) {a : α} (ha : a ∈ values) :
    named name values (.string (name a)) = some a := h a ha

theorem NetMode.named_name (mode : NetMode) : named NetMode.name [.passt, .tap, .none] (.string mode.name) = some mode := by
  cases mode <;> rfl

theorem Arch.named_asStr (arch : Arch) : named Arch.asStr [.x86_64, .aarch64] (.string arch.asStr) = some arch := by
  cases arch <;> rfl

theorem ColorMode.named_name (color : ColorMode) :
    named ColorMode.name [.auto, .always, .never] (.string color.name) = some color := by
  cases color <;> rfl

theorem SpecClear.named_asStr (clear : SpecClear) :
    named SpecClear.asStr SpecClear.all (.string clear.asStr) = some clear := by
  cases clear <;> rfl

theorem decodeU8_integer (n : UInt8) : decodeU8 (.integer n.toNat) = some n := by
  rw [decodeU8, asNat_integer n.toNat_lt, Option.map_some, UInt8.ofNat_toNat]

theorem NetworkSpecPatch.decode_encode (p : NetworkSpecPatch) : NetworkSpecPatch.decode p.encode = some p := by
  have hs : FieldsSorted p.fields := .of_keys ["forward", "mac", "mode", "tap"] rfl (by decide)
  have hnames : ∀ x ∈ p.fields, x.1 ∈ NetworkSpecPatch.names := by simp [fields, NetworkSpecPatch.names]
  have hmode : field (present p.fields) "mode" (named NetMode.name [.passt, .tap, .none]) = some p.mode :=
    field_present hs rfl fun mode _ => mode.named_name
  have hforward : field (present p.fields) "forward" (asList (asText fun s => (PortForward.fromStr s).toOption)) =
      some p.forward := by
    refine field_present hs rfl fun l _ => asList_map fun forward _ => ?_
    exact asText_string (by rw [PortForward.fromStr_display]; rfl)
  have htap : field (present p.fields) "tap" asString = some p.tap := field_present hs rfl fun _ _ => rfl
  have hmac : field (present p.fields) "mac" (asText MacAddr.fromStr) = some p.mac :=
    field_present hs rfl fun mac _ => asText_string mac.fromStr_display
  rw [NetworkSpecPatch.decode, encode, table?_present hnames]
  simp only [Option.bind_eq_bind, Option.bind_some, hmode, hforward, htap, hmac]

theorem MountSpec.decode_encode (m : MountSpec) : MountSpec.decode m.encode = some m := by
  have hs : FieldsSorted m.fields := .of_keys ["guest", "host", "readonly", "tag"] rfl (by decide)
  have hnames : ∀ x ∈ m.fields, x.1 ∈ MountSpec.names := by simp [fields, MountSpec.names]
  have hhost : field (present m.fields) "host" asString = some (some m.host) := field_present hs rfl fun _ _ => rfl
  have hguest : field (present m.fields) "guest" asString = some (some m.guest) := field_present hs rfl fun _ _ => rfl
  have hreadonly : field (present m.fields) "readonly" asBool = some (some m.readonly) :=
    field_present hs rfl fun _ _ => rfl
  have htag : field (present m.fields) "tag" asString = some m.tag := field_present hs rfl fun _ _ => rfl
  rw [MountSpec.decode, encode, table?_present hnames]
  simp only [Option.bind_eq_bind, Option.bind_some, hhost, hguest, hreadonly, htag, Option.getD_some]

theorem CloudInitSpecPatch.decode_encode (p : CloudInitSpecPatch) : CloudInitSpecPatch.decode p.encode = some p := by
  have hs : FieldsSorted p.fields := .of_keys ["network_config", "password", "provisioning",
    "ssh_authorized_keys", "ssh_keys", "ssh_pwauth", "user_data", "user_data_inline"] rfl (by decide)
  have hnames : ∀ x ∈ p.fields, x.1 ∈ CloudInitSpecPatch.names := by simp [fields, CloudInitSpecPatch.names]
  have hstring : ∀ (name : String) {x : Option String}, p.fields.lookup name = some (x.map .string) →
      field (present p.fields) name asString = some x := fun _ _ hname => field_present hs hname fun _ _ => rfl
  have hstrings : ∀ (name : String) {x : Option (List String)}, p.fields.lookup name = some (x.map strings) →
      field (present p.fields) name (asList asString) = some x :=
    fun _ _ hname => field_present hs hname fun l _ => asList_strings l
  have hbool : ∀ (name : String) {x : Option Bool}, p.fields.lookup name = some (x.map .boolean) →
      field (present p.fields) name asBool = some x := fun _ _ hname => field_present hs hname fun _ _ => rfl
  rw [CloudInitSpecPatch.decode, encode, table?_present hnames]
  simp only [Option.bind_eq_bind, Option.bind_some, hstring "user_data" rfl, hstring "user_data_inline" rfl,
    hstring "network_config" rfl, hstrings "ssh_keys" rfl, hstrings "ssh_authorized_keys" rfl, hstring "password" rfl,
    hbool "ssh_pwauth" rfl, hbool "provisioning" rfl]

theorem VmmSpecPatch.decode_encode {p : VmmSpecPatch} (h : ∀ firmware, p.firmware = some firmware → firmware.Wf) :
    VmmSpecPatch.decode p.encode = some { p with configOverlay := none } := by
  have hs : FieldsSorted p.fields := .of_keys ["binary", "extra_args", "firmware"] rfl (by decide)
  have hnames : ∀ x ∈ p.fields, x.1 ∈ VmmSpecPatch.names := by simp [fields, VmmSpecPatch.names]
  have hbinary : field (present p.fields) "binary" asString = some p.binary := field_present hs rfl fun _ _ => rfl
  have hfirmware : field (present p.fields) "firmware" (asText Firmware.fromStr) = some p.firmware :=
    field_present hs rfl fun firmware hf => asText_string (Firmware.fromStr_display (h firmware hf))
  have hargs : field (present p.fields) "extra_args" (asList asString) = some p.extraArgs :=
    field_present hs rfl fun l _ => asList_strings l
  rw [VmmSpecPatch.decode, encode, table?_present hnames]
  simp only [Option.bind_eq_bind, Option.bind_some, hbinary, hfirmware, hargs]

theorem MachineSpecPatch.checkClears_mono {p q : MachineSpecPatch} (h : ∀ clear, q.sets clear = true → p.sets clear = true) :
    ∀ {l seen : List SpecClear}, p.checkClears seen l = .ok () → q.checkClears seen l = .ok ()
  | [], _, _ => rfl
  | clear :: rest, seen, hok => by
    rw [checkClears] at hok ⊢
    split at hok
    · cases hok
    · rename_i hseen
      split at hok
      · cases hok
      · rename_i hsets
        rw [if_neg hseen, if_neg fun hq => hsets (h clear hq)]
        exact checkClears_mono h hok

theorem MachineSpecPatch.sets_withoutOverlay {p : MachineSpecPatch} {clear : SpecClear}
    (h : p.withoutOverlay.sets clear = true) : p.sets clear = true := by
  cases hvmm : p.vmm with
  | none => simpa [withoutOverlay, sets, hvmm] using h
  | some vmm =>
    cases clear with
    | vmmConfigOverlay => simp [withoutOverlay, sets, hvmm] at h
    | _ => simpa [withoutOverlay, sets, hvmm] using h

/-- A layer is valid without its overlay. -/
theorem MachineSpecPatch.validate_withoutOverlay {p : MachineSpecPatch} (h : p.validate = .ok ()) :
    p.withoutOverlay.validate = .ok () := by
  have hclears : p.checkClears [] p.clear = .ok () := by
    unfold validate at h
    split at h
    · obtain ⟨_, -, hc⟩ := Res.bind_ok h
      exact hc
    · exact h
  have hoverlay : p.withoutOverlay.vmm.bind (·.configOverlay) = none := by
    cases hvmm : p.vmm <;> simp [withoutOverlay, hvmm]
  unfold validate
  rw [hoverlay]
  exact checkClears_mono (fun clear => sets_withoutOverlay) hclears

theorem MachineSpecPatch.encode_withoutOverlay (p : MachineSpecPatch) : p.withoutOverlay.encode = p.encode := by
  cases hvmm : p.vmm with
  | none => simp [withoutOverlay, encode, fields, hvmm]
  | some vmm => simp [withoutOverlay, encode, fields, hvmm, VmmSpecPatch.encode, VmmSpecPatch.fields]

theorem ByteSize.decode_encode {size : ByteSize} (h : size.Wf) : ByteSize.decode size.encode = some size := by
  rw [ByteSize.encode, ByteSize.decode, ByteSize.fromStr_display h]

theorem MachineSpecPatch.fields_sorted (p : MachineSpecPatch) : FieldsSorted p.fields :=
  .of_keys ["arch", "clear", "cloud_init", "cpus", "cpus_max", "disk", "image", "memory", "memory_max", "mount", "network",
    "user", "vmm"] rfl (by decide)

theorem MachineSpecPatch.decode_encode {p : MachineSpecPatch} (hwf : p.Wf) (hvalid : p.validate = .ok ()) :
    MachineSpecPatch.decode p.encode = some p.withoutOverlay := by
  have hs := p.fields_sorted
  have hnames : ∀ x ∈ p.fields, x.1 ∈ MachineSpecPatch.names := by simp [fields, MachineSpecPatch.names]
  have hclear : ∃ clear, field (present p.fields) "clear" (asList (named SpecClear.asStr SpecClear.all)) = some clear ∧
      clear.getD [] = p.clear := by
    by_cases hnil : p.clear = []
    · refine ⟨none, ?_, hnil.symm⟩
      have hlookup : p.fields.lookup "clear" = some none := by
        change some (if p.clear = [] then none else _) = _
        rw [if_pos hnil]
      rw [field, lookup_present hs, hlookup]
      rfl
    · refine ⟨some p.clear, ?_, rfl⟩
      have hlookup : p.fields.lookup "clear" =
          some ((some p.clear).map fun l => .array (l.map fun clear => .string clear.asStr)) := by
        change some (if p.clear = [] then none else _) = _
        rw [if_neg hnil]
        rfl
      exact field_present hs hlookup fun l _ => asList_map fun clear _ => clear.named_asStr
  obtain ⟨clear, hclear, hclearEq⟩ := hclear
  have himage : field (present p.fields) "image" asString = some (p.image.map ImageRef.text) := by
    have hlookup : p.fields.lookup "image" = some ((p.image.map ImageRef.text).map Toml.string) := by
      rw [Option.map_map]
      rfl
    exact field_present hs hlookup fun _ _ => rfl
  have harch : field (present p.fields) "arch" (named Arch.asStr [.x86_64, .aarch64]) = some p.arch :=
    field_present hs rfl fun arch _ => arch.named_asStr
  have hcpus : field (present p.fields) "cpus" decodeU8 = some p.cpus :=
    field_present hs rfl fun n _ => decodeU8_integer n
  have hcpusMax : field (present p.fields) "cpus_max" decodeU8 = some p.cpusMax :=
    field_present hs rfl fun n _ => decodeU8_integer n
  have hmemory : field (present p.fields) "memory" ByteSize.decode = some p.memory :=
    field_present hs rfl fun size h => ByteSize.decode_encode (hwf.memory size h)
  have hmemoryMax : field (present p.fields) "memory_max" ByteSize.decode = some p.memoryMax :=
    field_present hs rfl fun size h => ByteSize.decode_encode (hwf.memoryMax size h)
  have hdisk : field (present p.fields) "disk" ByteSize.decode = some p.disk :=
    field_present hs rfl fun size h => ByteSize.decode_encode (hwf.disk size h)
  have huser : field (present p.fields) "user" asString = some p.user := field_present hs rfl fun _ _ => rfl
  have hnetwork : field (present p.fields) "network" NetworkSpecPatch.decode = some p.network :=
    field_present hs rfl fun network _ => network.decode_encode
  have hmounts : field (present p.fields) "mount" (asList MountSpec.decode) = some p.mounts :=
    field_present hs rfl fun l _ => asList_map fun mount _ => mount.decode_encode
  have hcloudInit : field (present p.fields) "cloud_init" CloudInitSpecPatch.decode = some p.cloudInit :=
    field_present hs rfl fun cloudInit _ => cloudInit.decode_encode
  have hvmm : field (present p.fields) "vmm" VmmSpecPatch.decode = some p.withoutOverlay.vmm := by
    have hlookup : p.fields.lookup "vmm" = some (p.withoutOverlay.vmm.map VmmSpecPatch.encode) := by
      have hfields : p.withoutOverlay.fields.lookup "vmm" = some (p.withoutOverlay.vmm.map VmmSpecPatch.encode) := rfl
      cases hv : p.vmm with
      | none => simpa [withoutOverlay, hv] using (show p.fields.lookup "vmm" = some (p.vmm.map VmmSpecPatch.encode) from rfl)
      | some vmm =>
        change some (p.vmm.map VmmSpecPatch.encode) = _
        simp [withoutOverlay, hv, VmmSpecPatch.encode, VmmSpecPatch.fields]
    refine field_present hs hlookup fun vmm hv => ?_
    obtain ⟨vmm', hvmm', rfl⟩ := Option.map_eq_some_iff.mp hv
    exact VmmSpecPatch.decode_encode fun firmware hf => hwf.firmware vmm' firmware hvmm' hf
  have hok : p.withoutOverlay.validate.isOk = true := by
    rw [validate_withoutOverlay hvalid]
    rfl
  have himageBack : (p.image.map ImageRef.text).map ImageRef.mk = p.image := by cases p.image <;> rfl
  have hdo : ∀ {α β : Type} (a : α) (f : α → Option β), (some a >>= f) = f a := fun _ _ => rfl
  rw [MachineSpecPatch.decode, encode, table?_present hnames, hdo, hclear, hdo, himage, hdo, harch, hdo, hcpus, hdo,
    hcpusMax, hdo, hmemory, hdo, hmemoryMax, hdo, hdisk, hdo, huser, hdo, hnetwork, hdo, hmounts, hdo, hcloudInit, hdo,
    hvmm, hdo, hclearEq, himageBack]
  exact if_pos hok

def GlobalConfig.withoutOverlay (g : GlobalConfig) : GlobalConfig := { g with defaults := g.defaults.withoutOverlay }

theorem StartConfig.decode_encode (c : StartConfig) : StartConfig.decode c.encode = some c := by
  have hs : FieldsSorted [("timeout", some c.timeout.encode), ("timeout_first_boot", some c.timeoutFirstBoot.encode)] :=
    .of_keys ["timeout", "timeout_first_boot"] rfl (by decide)
  have htimeout : field (present _) "timeout" (asText HumanDuration.fromStr) = some (some c.timeout) :=
    field_present hs rfl fun d _ => asText_string d.fromStr_display
  have hfirst : field (present _) "timeout_first_boot" (asText HumanDuration.fromStr) = some (some c.timeoutFirstBoot) :=
    field_present hs rfl fun d _ => asText_string d.fromStr_display
  rw [StartConfig.decode, encode, table?_present (by simp)]
  simp only [Option.bind_eq_bind, Option.bind_some, htimeout, hfirst, Option.getD_some]

theorem StopConfig.decode_encode (c : StopConfig) : StopConfig.decode c.encode = some c := by
  have hs : FieldsSorted [("timeout", some c.timeout.encode)] := .of_keys ["timeout"] rfl (by decide)
  have htimeout : field (present _) "timeout" (asText HumanDuration.fromStr) = some (some c.timeout) :=
    field_present hs rfl fun d _ => asText_string d.fromStr_display
  rw [StopConfig.decode, encode, table?_present (by simp)]
  simp only [Option.bind_eq_bind, Option.bind_some, htimeout, Option.getD_some]

theorem UiConfig.decode_encode (c : UiConfig) : UiConfig.decode c.encode = some c := by
  have hs : FieldsSorted [("color", some (Toml.string c.color.name))] := .of_keys ["color"] rfl (by decide)
  have hlookup : [("color", some (Toml.string c.color.name))].lookup "color" =
      some ((some c.color).map fun color => .string color.name) := rfl
  have hcolor := field_present hs hlookup fun color _ => color.named_name
  rw [UiConfig.decode, encode, table?_present (by simp)]
  simp only [Option.bind_eq_bind, Option.bind_some, hcolor, Option.getD_some]

theorem ImagesConfig.decode_encode (c : ImagesConfig) : ImagesConfig.decode c.encode = some c := by
  have hs : FieldsSorted [("catalog", some (strings c.catalog)), ("insecure_registries", some (strings c.insecureRegistries))] :=
    .of_keys ["catalog", "insecure_registries"] rfl (by decide)
  have hcatalog : field (present _) "catalog" (asList asString) = some (some c.catalog) :=
    field_present hs rfl fun l _ => asList_strings l
  have hregistries : field (present _) "insecure_registries" (asList asString) = some (some c.insecureRegistries) :=
    field_present hs rfl fun l _ => asList_strings l
  rw [ImagesConfig.decode, encode, table?_present (by simp)]
  simp only [Option.bind_eq_bind, Option.bind_some, hcatalog, hregistries, Option.getD_some]

theorem GlobalConfig.fields_sorted (g : GlobalConfig) : FieldsSorted g.fields :=
  .of_keys ["defaults", "images", "start", "stop", "ui"] rfl (by decide)

theorem GlobalConfig.decode_encode {g : GlobalConfig} (hwf : g.defaults.Wf) (hvalid : g.defaults.validate = .ok ()) :
    GlobalConfig.decode g.encode = some g.withoutOverlay := by
  have hs := g.fields_sorted
  have hnames : ∀ x ∈ g.fields, x.1 ∈ GlobalConfig.names := by simp [fields, GlobalConfig.names]
  have hdefaults : field (present g.fields) "defaults" MachineSpecPatch.decode = some (some g.defaults.withoutOverlay) := by
    have hlookup : g.fields.lookup "defaults" = some ((some g.defaults.withoutOverlay).map MachineSpecPatch.encode) := by
      rw [Option.map_some, MachineSpecPatch.encode_withoutOverlay]
      rfl
    refine field_present hs hlookup ?_
    rintro _ ⟨⟩
    rw [MachineSpecPatch.encode_withoutOverlay, MachineSpecPatch.decode_encode hwf hvalid]
  have hfield : ∀ {α : Type} {name : String} (encode : α → Toml) (a : α), g.fields.lookup name = some (some (encode a)) →
      g.fields.lookup name = some ((some a).map encode) := fun _ _ h => h
  have hstart : field (present g.fields) "start" StartConfig.decode = some (some g.start) :=
    field_present hs (hfield StartConfig.encode g.start rfl) fun c _ => c.decode_encode
  have hstop : field (present g.fields) "stop" StopConfig.decode = some (some g.stop) :=
    field_present hs (hfield StopConfig.encode g.stop rfl) fun c _ => c.decode_encode
  have hui : field (present g.fields) "ui" UiConfig.decode = some (some g.ui) :=
    field_present hs (hfield UiConfig.encode g.ui rfl) fun c _ => c.decode_encode
  have himages : field (present g.fields) "images" ImagesConfig.decode = some (some g.images) :=
    field_present hs (hfield ImagesConfig.encode g.images rfl) fun c _ => c.decode_encode
  rw [GlobalConfig.decode, encode, table?_present hnames]
  simp only [Option.bind_eq_bind, Option.bind_some, hdefaults, hstart, hstop, hui, himages, Option.getD_some]
  rfl

/-! ## Known keys -/

inductive TableSchema
  | machine | network | mount | cloudInit | vmm | global | start | stop | ui | images
  deriving DecidableEq, Repr

def TableSchema.keys : TableSchema → List String
  | .machine => MachineSpecPatch.names
  | .network => NetworkSpecPatch.names
  | .mount => MountSpec.names
  | .cloudInit => CloudInitSpecPatch.names
  | .vmm => ["binary", "firmware", "extra_args", "config_overlay"]
  | .global => GlobalConfig.names
  | .start => ["timeout_first_boot", "timeout"]
  | .stop => ["timeout"]
  | .ui => ["color"]
  | .images => ["catalog", "insecure_registries"]

def TableSchema.child (schema : TableSchema) (key : String) : Option TableSchema :=
  match schema with
  | .machine => [("network", network), ("mount", mount), ("cloud_init", cloudInit), ("vmm", vmm)].lookup key
  | .global => [("defaults", machine), ("start", start), ("stop", stop), ("ui", ui), ("images", images)].lookup key
  | _ => none

/-- How deep the tables below this one nest. -/
def TableSchema.depth : TableSchema → Nat
  | .global => 2
  | .machine => 1
  | _ => 0

/-- One row of the table of distances, after the row before it. -/
def distanceRow (c : Char) : Nat → List Nat → List Char → List Nat
  | left, diagonal :: above :: previous, d :: right =>
    let value := if c = d then diagonal else 1 + min diagonal (min left above)
    value :: distanceRow c value (above :: previous) right
  | _, _, _ => []

def editDistance (left right : String) : Nat :=
  let first := List.range (right.toList.length + 1)
  let rows := left.toList.foldl (fun (row : Nat × List Nat) c =>
    (row.1 + 1, (row.1 + 1) :: distanceRow c (row.1 + 1) row.2 right.toList)) (0, first)
  rows.2.getLastD 0

/-- The first of the nearest candidates within distance three. -/
def closestKey (unknown : String) (candidates : List String) : Option String :=
  ((candidates.map fun candidate => (candidate, editDistance unknown candidate)).filter fun x => x.2 ≤ 3).foldl
    (fun (best : Option (String × Nat)) x => match best with
      | some b => if x.2 < b.2 then some x else some b
      | none => some x) none |>.map Prod.fst

def keyPath (start key : String) : String := if start = "" then key else s!"{start}.{key}"

def unknownKey (schema : TableSchema) (start key file : String) : FirestoneError :=
  (FirestoneError.new .invalidSpec s!"unknown key '{keyPath start key}' in {file}").withHint
    (match closestKey key schema.keys with
      | some candidate => s!"did you mean '{keyPath start candidate}'?"
      | none => s!"remove '{keyPath start key}' or use a key documented in {file}")

/-- The items of an array of tables, from an index on. -/
def checkItems (check : String → Toml → Res Unit) (path : String) : Nat → List Toml → Res Unit
  | _, [] => .ok ()
  | index, value :: rest => do
    check s!"{path}[{index}]" value
    checkItems check path (index + 1) rest

/-- The members of a table, with the check of the tables below it. -/
@[grind =]
def checkMembers (check : TableSchema → String → Toml → Res Unit) (schema : TableSchema) (start file : String) :
    List (String × Toml) → Res Unit
  | [] => .ok ()
  | (key, value) :: rest =>
    if schema.keys.contains key then do
      match schema.child key, value with
      | some .mount, .array values => checkItems (check .mount) (keyPath start key) 0 values
      | some child, value => check child (keyPath start key) value
      | none, _ => .ok ()
      checkMembers check schema start file rest
    else .error (unknownKey schema start key file)

/-- `validate_table_keys`, where the tables nest to a depth. -/
def validateKeys (file : String) : Nat → TableSchema → String → Toml → Res Unit
  | 0, schema, start, .table ms => checkMembers (fun _ _ _ => .ok ()) schema start file ms
  | depth + 1, schema, start, .table ms => checkMembers (validateKeys file depth) schema start file ms
  | _, _, _, _ => .ok ()

def validateTableKeys (value : Toml) (schema : TableSchema) (start file : String) : Res Unit :=
  validateKeys file schema.depth schema start value

section keys

variable {file : String}

/-- The member has a known key, and so have all tables below it. -/
def MemberKnown (file : String) (depth : Nat) (schema : TableSchema) (m : String × Toml) : Prop :=
  m.1 ∈ schema.keys ∧ ∀ child, schema.child m.1 = some child →
    (∀ path, validateKeys file depth child path m.2 = .ok ()) ∧
    ∀ values, m.2 = .array values → ∀ v ∈ values, ∀ path, validateKeys file depth child path v = .ok ()

theorem checkItems_ok {check : String → Toml → Res Unit} {path : String} : ∀ {values : List Toml} {index : Nat},
    (∀ v ∈ values, ∀ path, check path v = .ok ()) → checkItems check path index values = .ok ()
  | [], _, _ => rfl
  | value :: rest, index, h => by
    rw [checkItems, h value List.mem_cons_self]
    exact checkItems_ok fun v hv => h v (List.mem_cons_of_mem _ hv)

theorem checkMembers_ok {depth : Nat} {schema : TableSchema} {start : String} : ∀ {ms : List (String × Toml)},
    (∀ m ∈ ms, MemberKnown file depth schema m) → checkMembers (validateKeys file depth) schema start file ms = .ok ()
  | [], _ => rfl
  | (key, value) :: rest, h => by
    obtain ⟨hkey, hchild⟩ := h _ List.mem_cons_self
    have hrest : checkMembers (validateKeys file depth) schema start file rest = .ok () :=
      checkMembers_ok fun m hm => h m (List.mem_cons_of_mem _ hm)
    rw [checkMembers, if_pos (List.contains_iff_mem.mpr hkey)]
    simp only
    split
    · rename_i _ values hmount
      rw [checkItems_ok ((hchild _ hmount).2 values rfl)]
      exact hrest
    · rename_i child hsome _
      rw [(hchild child hsome).1]
      exact hrest
    · exact hrest

theorem validateKeys_table {depth : Nat} {schema : TableSchema} {start : String} {ms : List (String × Toml)}
    (h : ∀ m ∈ ms, MemberKnown file depth schema m) : validateKeys file (depth + 1) schema start (.table ms) = .ok () :=
  checkMembers_ok h

/-- A table without tables below it. -/
theorem validateKeys_leaf {schema : TableSchema} {start : String} {ms : List (String × Toml)}
    (hchild : ∀ key, schema.child key = none) (h : ∀ m ∈ ms, m.1 ∈ schema.keys) :
    ∀ depth, validateKeys file depth schema start (.table ms) = .ok ()
  | 0 => by
    rw [validateKeys]
    induction ms with
    | nil => rfl
    | cons m rest ih =>
      obtain ⟨key, value⟩ := m
      rw [checkMembers, if_pos (List.contains_iff_mem.mpr (h _ List.mem_cons_self))]
      simp only [hchild]
      exact ih fun m hm => h m (List.mem_cons_of_mem _ hm)
  | depth + 1 => validateKeys_table fun m hm => ⟨h m hm, fun child hc => by rw [hchild] at hc; cases hc⟩

theorem MemberKnown.plain {depth : Nat} {schema : TableSchema} {key : String} {value : Toml} (hkey : key ∈ schema.keys)
    (hchild : schema.child key = none) : MemberKnown file depth schema (key, value) :=
  ⟨hkey, fun child hc => by simp only [hchild] at hc; cases hc⟩

/-- A table below this one. -/
theorem MemberKnown.table {depth : Nat} {schema child : TableSchema} {key : String} {ms : List (String × Toml)}
    (hkey : key ∈ schema.keys) (hchild : schema.child key = some child)
    (h : ∀ path, validateKeys file depth child path (.table ms) = .ok ()) : MemberKnown file depth schema (key, .table ms) := by
  refine ⟨hkey, fun child' hc => ?_⟩
  simp only [hchild] at hc
  cases hc
  exact ⟨h, fun values hv => by cases hv⟩

theorem keys_of_present {names : List String} {l : List (String × Option Toml)} (h : ∀ x ∈ l, x.1 ∈ names) :
    ∀ m ∈ present l, m.1 ∈ names := fun _ hm => h _ (mem_present hm)

theorem VmmSpecPatch.keys_known (vmm : VmmSpecPatch) : ∀ m ∈ present vmm.fields, m.1 ∈ TableSchema.vmm.keys :=
  keys_of_present (by simp [fields, TableSchema.keys])

theorem MachineSpecPatch.member_known {p : MachineSpecPatch} {m : String × Toml} (hm : m ∈ present p.fields) :
    MemberKnown file 0 .machine m := by
  have hmem := mem_present hm
  obtain ⟨key, value⟩ := m
  simp only [fields, List.mem_cons, Prod.mk.injEq, List.not_mem_nil, or_false] at hmem
  rcases hmem with ⟨rfl, -⟩ | ⟨rfl, -⟩ | ⟨rfl, hv⟩ | ⟨rfl, -⟩ | ⟨rfl, -⟩ | ⟨rfl, -⟩ | ⟨rfl, -⟩ | ⟨rfl, -⟩ | ⟨rfl, -⟩ |
    ⟨rfl, hv⟩ | ⟨rfl, hv⟩ | ⟨rfl, -⟩ | ⟨rfl, hv⟩
  · exact .plain (by decide) rfl
  · exact .plain (by decide) rfl
  · obtain ⟨cloudInit, -, rfl⟩ := Option.map_eq_some_iff.mp hv.symm
    exact .table (by decide) rfl fun path => validateKeys_leaf (fun _ => rfl)
      (keys_of_present (by simp [CloudInitSpecPatch.fields, TableSchema.keys, CloudInitSpecPatch.names])) 0
  · exact .plain (by decide) rfl
  · exact .plain (by decide) rfl
  · exact .plain (by decide) rfl
  · exact .plain (by decide) rfl
  · exact .plain (by decide) rfl
  · exact .plain (by decide) rfl
  · obtain ⟨mounts, -, rfl⟩ := Option.map_eq_some_iff.mp hv.symm
    have hkey : "mount" ∈ TableSchema.machine.keys := by decide
    refine ⟨hkey, fun child hc => ?_⟩
    cases hc
    refine ⟨fun path => rfl, fun values hvalues v hv path => ?_⟩
    cases hvalues
    obtain ⟨mount, -, rfl⟩ := List.mem_map.mp hv
    exact validateKeys_leaf (fun _ => rfl)
      (keys_of_present (by simp [MountSpec.fields, TableSchema.keys, MountSpec.names])) 0
  · obtain ⟨network, -, rfl⟩ := Option.map_eq_some_iff.mp hv.symm
    exact .table (by decide) rfl fun path => validateKeys_leaf (fun _ => rfl)
      (keys_of_present (by simp [NetworkSpecPatch.fields, TableSchema.keys, NetworkSpecPatch.names])) 0
  · exact .plain (by decide) rfl
  · obtain ⟨vmm, -, rfl⟩ := Option.map_eq_some_iff.mp hv.symm
    exact .table (by decide) rfl fun path => validateKeys_leaf (fun _ => rfl) vmm.keys_known 0

end keys

/-! ## Documents -/

/-- The libraries for TOML and JSON texts. `decodeError` is what is reported of a text that does not decode: a path and a
detail. -/
structure DocumentLib where
  parseToml : String → Except String Toml
  tomlToString : Toml → Except String String
  decodeError : String → String × String
  jsonToString : Json → Except String String
  jsonFromStr : String → Except String Json

section documents

variable (lib : DocumentLib)

def parseToml (input file : String) : Res Toml :=
  match lib.parseToml input with
  | .ok value => .ok value
  | .error e => .error ((FirestoneError.new .invalidSpec s!"cannot parse {file}: {e}").withHint
      s!"fix the TOML syntax in {file}")

def serializationError (file message : String) : FirestoneError :=
  (FirestoneError.new .generic s!"{message} for {file}").withHint "report this Firestone serialization error"

def encodeTomlValue (value : Toml) (file : String) : Res String :=
  match lib.tomlToString value with
  | .ok text => .ok text
  | .error _ => .error (serializationError file "cannot encode TOML document")

def deserializeToml {α : Type} (decode : Toml → Option α) (input file : String) : Res α :=
  match (lib.parseToml input).toOption.bind decode with
  | some a => .ok a
  | none =>
    let (path, detail) := lib.decodeError input
    let path := if path = "" then "<root>" else path
    .error ((FirestoneError.new .invalidSpec s!"invalid value for '{path}' in {file}: {detail}").withHint
      s!"correct '{path}' in {file}")

def insertTomlPath (value : Toml) (path : List String) (inserted : Toml) (file : String) : Res Toml :=
  match insertPath inserted path value with
  | .ok value => .ok value
  | .error key =>
    .error ((FirestoneError.new .generic
      (if path = [] then s!"cannot encode an empty TOML key path for {file}"
        else s!"cannot encode '{key}' as a TOML table in {file}")).withHint "report this Firestone serialization error")

def dotted (path : List String) : String := String.intercalate "." path

def decodeTomlOverlay (value : Toml) (file : String) (path : List String) : Res Json := do
  let key := dotted path
  let overlay ← match value with
    | .string text =>
      match lib.jsonFromStr text with
      | .ok overlay => .ok overlay
      | .error e => .error ((FirestoneError.new .invalidSpec s!"invalid JSON text for '{key}' in {file}: {e}").withHint
          s!"set '{key}' to a JSON object")
    | _ => .error ((FirestoneError.new .invalidSpec s!"'{key}' in {file} must be canonical JSON text").withHint
        ("set '" ++ key ++ "' to JSON text such as '\x7b\x7d'"))
  validateOverlay overlay key
  .ok overlay

/-- The document of an encoded value, with the text of the overlay at its path. -/
def documentOf (value : Toml) (overlay : Option Json) (path : List String) (file : String) : Res Toml :=
  match overlay with
  | none => .ok value
  | some overlay => do
    validateOverlay overlay (dotted path)
    let text ← match lib.jsonToString overlay with
      | .ok text => .ok text
      | .error _ => .error (serializationError file "cannot encode vmm.config_overlay as JSON")
    insertTomlPath value path (.string text) file

def serializeTomlWithOverlay (value : Toml) (overlay : Option Json) (path : List String) (file : String) : Res String := do
  let document ← documentOf lib value overlay path file
  encodeTomlValue lib document file

/-- The overlay of a document and the value that the rest of it decodes to. -/
def splitDocument {α : Type} (decode : Toml → Option α) (input file : String) (path : List String) :
    Res (Option Json × α) := do
  let value ← parseToml lib input file
  let overlay ← match (takePath path value).1 with
    | some taken => (decodeTomlOverlay lib taken file path).map some
    | none => .ok none
  let text ← encodeTomlValue lib (takePath path value).2 file
  let decoded ← deserializeToml lib decode text file
  .ok (overlay, decoded)

def MachineSpecPatch.overlay (p : MachineSpecPatch) : Option Json := p.vmm.bind (·.configOverlay)

def MachineSpecPatch.setOverlay (p : MachineSpecPatch) (overlay : Json) : MachineSpecPatch :=
  { p with vmm := some { p.vmm.getD {} with configOverlay := some overlay } }

def validateKnownKeys (input : String) (schema : TableSchema) (file : String) : Res Unit := do
  let value ← parseToml lib input file
  validateTableKeys value schema "" file

namespace MachineSpecPatch

def overlayPath : List String := ["vmm", "config_overlay"]

def toToml (p : MachineSpecPatch) : Res String := do
  p.validate
  serializeTomlWithOverlay lib p.withoutOverlay.encode p.overlay overlayPath "firestone.toml"

def fromToml (input : String) : Res MachineSpecPatch := do
  validateKnownKeys lib input .machine "firestone.toml"
  let (overlay, patch) ← splitDocument lib MachineSpecPatch.decode input "firestone.toml" overlayPath
  let patch := match overlay with
    | some overlay => patch.setOverlay overlay
    | none => patch
  patch.validate
  .ok patch

end MachineSpecPatch

def validateRegistryHost (value : String) : Res Unit :=
  match Oci.References.checkRegistryHost value with
  | .ok () => .ok ()
  | .error detail => .error ((FirestoneError.new .invalidSpec s!"invalid registry host '{value}': {detail}").withHint
      "write a bare 'host' or 'host:port' entry such as 'localhost:5000'")

def ImagesConfig.validate (c : ImagesConfig) : Res Unit :=
  c.insecureRegistries.forM fun entry =>
    match validateRegistryHost entry with
    | .ok () => .ok ()
    | .error e => .error ((FirestoneError.new .invalidSpec s!"images.insecure_registries: {e.message}").withHint
        (e.hint.getD "write a bare 'host' or 'host:port' entry"))

namespace GlobalConfig

def overlayPath : List String := ["defaults", "vmm", "config_overlay"]

def toToml (g : GlobalConfig) : Res String := do
  g.defaults.validate
  serializeTomlWithOverlay lib g.withoutOverlay.encode g.defaults.overlay overlayPath "config.toml"

def fromToml (input : String) : Res GlobalConfig := do
  validateKnownKeys lib input .global "config.toml"
  let (overlay, config) ← splitDocument lib GlobalConfig.decode input "config.toml" overlayPath
  let config := match overlay with
    | some overlay => { config with defaults := config.defaults.setOverlay overlay }
    | none => config
  config.defaults.validate
  config.images.validate
  .ok config

end GlobalConfig

/-! ## Reading back what was written -/

/-- The library reads back the text it makes of a TOML value. -/
def TomlRoundTrip (doc : Toml) : Prop := ∃ text, lib.tomlToString doc = .ok text ∧ lib.parseToml text = .ok doc

def JsonRoundTrip (value : Json) : Prop := ∃ text, lib.jsonToString value = .ok text ∧ lib.jsonFromStr text = .ok value

section roundTrip

variable {lib}

theorem validateOverlay_ok {overlay : Json} (h : overlay.isObject = true) (key : String) :
    validateOverlay overlay key = .ok () := if_pos h

theorem decodeTomlOverlay_text {overlay : Json} {text : String} (hobj : overlay.isObject = true)
    (htext : lib.jsonFromStr text = .ok overlay) (file : String) (path : List String) :
    decodeTomlOverlay lib (.string text) file path = .ok overlay := by
  simp only [decodeTomlOverlay, htext, bind, Except.bind, validateOverlay_ok hobj]

/-- A document whose path is taken, and whose rest is encoded and decoded. -/
theorem splitDocument_ok {α : Type} {decode : Toml → Option α} {input file : String} {path : List String}
    {doc base : Toml} {taken : Option Toml} {overlay : Option Json} {a : α} (hparse : lib.parseToml input = .ok doc)
    (htake : takePath path doc = (taken, base))
    (hoverlay : (match taken with
      | some value => (decodeTomlOverlay lib value file path).map some
      | none => .ok none) = Except.ok overlay)
    (hbase : TomlRoundTrip lib base) (hdecode : decode base = some a) :
    splitDocument lib decode input file path = .ok (overlay, a) := by
  obtain ⟨text, hencode, hread⟩ := hbase
  have hdes : deserializeToml lib decode text file = .ok a := by
    simp only [deserializeToml, hread, Except.toOption, Option.bind_some, hdecode]
  simp only [splitDocument, parseToml, hparse, htake, bind, Except.bind, encodeTomlValue, hencode, hdes]
  cases taken with
  | none =>
    cases hoverlay
    rfl
  | some value =>
    simp only at hoverlay
    simp only [hoverlay]

namespace MachineSpecPatch

theorem isObject_of_validate {p : MachineSpecPatch} (h : p.validate = .ok ()) {overlay : Json}
    (ho : p.overlay = some overlay) : overlay.isObject = true := by
  unfold MachineSpecPatch.overlay at ho
  unfold validate at h
  rw [ho] at h
  obtain ⟨_, hov, -⟩ := Res.bind_ok h
  unfold validateOverlay at hov
  split at hov
  · assumption
  · cases hov

/-- The document of a layer with a text for the overlay. -/
def overlayDocument (p : MachineSpecPatch) (vmm : VmmSpecPatch) (x : Toml) : Toml :=
  .table (insertMember "vmm" (.table (insertMember "config_overlay" x (present vmm.fields))) (present p.fields))

theorem lookup_vmm (p : MachineSpecPatch) : (present p.fields).lookup "vmm" = p.vmm.map VmmSpecPatch.encode := by
  rw [lookup_present p.fields_sorted]
  rfl

theorem vacant {p : MachineSpecPatch} {vmm : VmmSpecPatch} (h : p.vmm = some vmm) : Vacant overlayPath p.encode := by
  have hs : FieldsSorted vmm.fields := .of_keys ["binary", "extra_args", "firmware"] rfl (by decide)
  refine ⟨present_sorted p.fields_sorted, vmm.encode, by rw [lookup_vmm, h]; rfl, present_sorted hs, ?_⟩
  rw [lookup_present hs]
  rfl

theorem insertPath_overlay {p : MachineSpecPatch} {vmm : VmmSpecPatch} (h : p.vmm = some vmm) (x : Toml) :
    insertPath x overlayPath p.encode = .ok (p.overlayDocument vmm x) := by
  have hvmm : (present p.fields).lookup "vmm" = some vmm.encode := by
    rw [lookup_vmm, h]
    rfl
  simp only [overlayPath, encode, insertPath, hvmm, Option.getD_some, VmmSpecPatch.encode, overlayDocument]

theorem takePath_encode (p : MachineSpecPatch) : takePath overlayPath p.encode = (none, p.encode) := by
  cases h : p.vmm with
  | some vmm => exact takePath_vacant (vacant h)
  | none =>
    have hvmm : (present p.fields).lookup "vmm" = none := by
      rw [lookup_vmm, h]
      rfl
    simp only [overlayPath, encode, takePath, hvmm]

theorem validateKeys_encode (p : MachineSpecPatch) (file start : String) :
    validateKeys file 1 .machine start p.encode = .ok () :=
  validateKeys_table fun _ hm => member_known hm

theorem validateKeys_overlay (p : MachineSpecPatch) (vmm : VmmSpecPatch) (x : Toml) (file start : String) :
    validateKeys file 1 .machine start (p.overlayDocument vmm x) = .ok () := by
  refine validateKeys_table fun m hm => ?_
  rcases mem_insertMember hm with rfl | hm
  · refine .table (by decide) rfl fun path => validateKeys_leaf (fun _ => rfl) (fun m hm => ?_) 0
    rcases mem_insertMember hm with rfl | hm
    · simp [TableSchema.keys]
    · exact vmm.keys_known m hm
  · exact member_known hm

theorem withoutOverlay_eq {p : MachineSpecPatch} (h : p.overlay = none) : p.withoutOverlay = p := by
  obtain ⟨_, _, _, _, _, _, _, _, _, _, _, _, vmm⟩ := p
  cases vmm with
  | none => rfl
  | some vmm =>
    have hnone : vmm.configOverlay = none := h
    obtain ⟨_, _, _, configOverlay⟩ := vmm
    cases hnone
    rfl

theorem setOverlay_withoutOverlay {p : MachineSpecPatch} {overlay : Json} (h : p.overlay = some overlay) :
    p.withoutOverlay.setOverlay overlay = p := by
  obtain ⟨vmm, hvmm, ho⟩ := Option.bind_eq_some_iff.mp h
  obtain ⟨_, _, _, _, _, _, _, _, _, _, _, _, vmm'⟩ := p
  cases hvmm
  obtain ⟨_, _, _, configOverlay⟩ := vmm
  cases ho
  rfl

end MachineSpecPatch

/-- What the libraries have to do for a layer at a place of a document. -/
structure RoundTrips (lib : DocumentLib) (base : Toml) (overlay : Option Json) (path : List String) (file : String) : Prop where
  rest : TomlRoundTrip lib base
  document : ∀ doc, documentOf lib base overlay path file = .ok doc → TomlRoundTrip lib doc
  json : ∀ value, overlay = some value → JsonRoundTrip lib value

/-- The text of a document with an overlay text, its reading and its keys. -/
theorem exists_document {lib : DocumentLib} {base : Toml} {overlay : Option Json} {path : List String} {file : String}
    (h : RoundTrips lib base overlay path file) (hobj : ∀ value, overlay = some value → value.isObject = true)
    (hnone : overlay = none → takePath path base = (none, base))
    (hsome : ∀ value, overlay = some value → Vacant path base) :
    ∃ doc text, serializeTomlWithOverlay lib base overlay path file = .ok text ∧ lib.parseToml text = .ok doc ∧
      documentOf lib base overlay path file = .ok doc ∧
      ∀ {α : Type} {decode : Toml → Option α} {a : α}, decode base = some a →
        splitDocument lib decode text file path = .ok (overlay, a) := by
  cases overlay with
  | none =>
    obtain ⟨text, hencode, hread⟩ := h.rest
    refine ⟨base, text, ?_, hread, rfl, fun hdecode => splitDocument_ok hread (hnone rfl) rfl h.rest hdecode⟩
    simp only [serializeTomlWithOverlay, documentOf, bind, Except.bind, encodeTomlValue, hencode]
  | some value =>
    obtain ⟨jtext, hto, hfrom⟩ := h.json value rfl
    obtain ⟨doc, hinsert, htake⟩ := takePath_insertPath (x := .string jtext) (hsome value rfl)
    have hdoc : documentOf lib base (some value) path file = .ok doc := by
      simp only [documentOf, bind, Except.bind, validateOverlay_ok (hobj value rfl), hto, insertTomlPath, hinsert]
    obtain ⟨text, hencode, hread⟩ := h.document doc hdoc
    refine ⟨doc, text, ?_, hread, hdoc, fun hdecode => splitDocument_ok hread htake ?_ h.rest hdecode⟩
    · simp only [serializeTomlWithOverlay, hdoc, bind, Except.bind, encodeTomlValue, hencode]
    · simp only
      rw [decodeTomlOverlay_text (hobj value rfl) hfrom]
      rfl

theorem MachineSpecPatch.vacant_of_overlay {p : MachineSpecPatch} {value : Json} (h : p.overlay = some value) :
    Vacant MachineSpecPatch.overlayPath p.encode := by
  obtain ⟨vmm, hvmm, -⟩ := Option.bind_eq_some_iff.mp h
  exact MachineSpecPatch.vacant hvmm

theorem documentOf_ok {value doc : Toml} {overlay : Option Json} {path : List String} {file : String}
    (h : documentOf lib value overlay path file = .ok doc) : overlay = none ∧ doc = value ∨
      overlay.isSome ∧ ∃ text, insertTomlPath value path (.string text) file = .ok doc := by
  cases overlay with
  | none =>
    cases h
    exact .inl ⟨rfl, rfl⟩
  | some overlay =>
    obtain ⟨_, -, h⟩ := Res.bind_ok h
    cases hjson : lib.jsonToString overlay with
    | error e =>
      simp only [hjson, bind, Except.bind] at h
      cases h
    | ok text =>
      simp only [hjson, bind, Except.bind] at h
      exact .inr ⟨rfl, text, h⟩

/-- The keys of the document of a layer are known. -/
theorem MachineSpecPatch.validateKeys_document {p : MachineSpecPatch} {doc : Toml} {file : String}
    (h : documentOf lib p.encode p.overlay MachineSpecPatch.overlayPath file = .ok doc) (start : String) :
    validateKeys file 1 .machine start doc = .ok () := by
  rcases documentOf_ok h with ⟨-, rfl⟩ | ⟨hsome, text, hinsert⟩
  · exact p.validateKeys_encode file start
  · obtain ⟨value, ho⟩ := Option.isSome_iff_exists.mp hsome
    obtain ⟨vmm, hvmm, -⟩ := Option.bind_eq_some_iff.mp ho
    simp only [insertTomlPath, MachineSpecPatch.insertPath_overlay hvmm] at hinsert
    cases hinsert
    exact p.validateKeys_overlay vmm _ file start

theorem MachineSpecPatch.fromToml_toToml {p : MachineSpecPatch} (hwf : p.Wf) (hvalid : p.validate = .ok ())
    (h : RoundTrips lib p.encode p.overlay MachineSpecPatch.overlayPath "firestone.toml") :
    ∃ text, MachineSpecPatch.toToml lib p = .ok text ∧ MachineSpecPatch.fromToml lib text = .ok p := by
  obtain ⟨doc, text, hserialize, hparse, hdoc, hsplit⟩ := exists_document h
    (fun value ho => MachineSpecPatch.isObject_of_validate hvalid ho) (fun _ => p.takePath_encode)
    fun value ho => MachineSpecPatch.vacant_of_overlay ho
  have hkeys : validateKnownKeys lib text .machine "firestone.toml" = .ok () := by
    simp only [validateKnownKeys, parseToml, hparse, bind, Except.bind]
    exact MachineSpecPatch.validateKeys_document hdoc ""
  have hdecode := hsplit (MachineSpecPatch.decode_encode hwf hvalid)
  have hback : (match p.overlay with
      | some overlay => p.withoutOverlay.setOverlay overlay
      | none => p.withoutOverlay) = p := by
    split
    · exact MachineSpecPatch.setOverlay_withoutOverlay ‹_›
    · exact MachineSpecPatch.withoutOverlay_eq ‹_›
  refine ⟨text, ?_, ?_⟩
  · simp only [MachineSpecPatch.toToml, hvalid, MachineSpecPatch.encode_withoutOverlay, bind, Except.bind, hserialize]
  · simp only [MachineSpecPatch.fromToml, hkeys, hdecode, bind, Except.bind, hback, hvalid]

namespace GlobalConfig

theorem encode_withoutOverlay (g : GlobalConfig) : g.withoutOverlay.encode = g.encode := by
  simp [withoutOverlay, encode, fields, MachineSpecPatch.encode_withoutOverlay]

theorem lookup_defaults (g : GlobalConfig) : (present g.fields).lookup "defaults" = some g.defaults.encode := by
  rw [lookup_present g.fields_sorted]
  rfl

theorem takePath_encode (g : GlobalConfig) : takePath overlayPath g.encode = (none, g.encode) := by
  have hdefaults := g.defaults.takePath_encode
  unfold MachineSpecPatch.overlayPath at hdefaults
  simp only [overlayPath, encode, takePath, g.lookup_defaults, hdefaults,
    insertMember_lookup (present_sorted g.fields_sorted) g.lookup_defaults]

theorem vacant_of_overlay {g : GlobalConfig} {value : Json} (h : g.defaults.overlay = some value) :
    Vacant overlayPath g.encode :=
  ⟨present_sorted g.fields_sorted, g.defaults.encode, g.lookup_defaults, MachineSpecPatch.vacant_of_overlay h⟩

/-- A member of the configuration other than the defaults. -/
theorem member_known {g : GlobalConfig} {m : String × Toml} {file : String} (hm : m ∈ present g.fields) :
    MemberKnown file 1 .global m := by
  have hmem := mem_present hm
  obtain ⟨key, value⟩ := m
  simp only [fields, List.mem_cons, Prod.mk.injEq, Option.some.injEq, List.not_mem_nil, or_false] at hmem
  rcases hmem with ⟨rfl, rfl⟩ | ⟨rfl, rfl⟩ | ⟨rfl, rfl⟩ | ⟨rfl, rfl⟩ | ⟨rfl, rfl⟩
  · exact .table (by decide) rfl fun path => g.defaults.validateKeys_encode file path
  · exact .table (by decide) rfl fun path => validateKeys_leaf (fun _ => rfl)
      (keys_of_present (by simp [TableSchema.keys])) 1
  · exact .table (by decide) rfl fun path => validateKeys_leaf (fun _ => rfl)
      (keys_of_present (by simp [TableSchema.keys])) 1
  · exact .table (by decide) rfl fun path => validateKeys_leaf (fun _ => rfl)
      (keys_of_present (by simp [TableSchema.keys])) 1
  · exact .table (by decide) rfl fun path => validateKeys_leaf (fun _ => rfl)
      (keys_of_present (by simp [TableSchema.keys])) 1

theorem validateKeys_document {g : GlobalConfig} {doc : Toml} {file : String}
    (h : documentOf lib g.encode g.defaults.overlay overlayPath file = .ok doc) (start : String) :
    validateKeys file 2 .global start doc = .ok () := by
  rcases documentOf_ok h with ⟨-, rfl⟩ | ⟨hsome, text, hdocument⟩
  · exact validateKeys_table fun _ hm => member_known hm
  · obtain ⟨value, ho⟩ := Option.isSome_iff_exists.mp hsome
    obtain ⟨vmm, hvmm, -⟩ := Option.bind_eq_some_iff.mp ho
    have hinsert : ∀ x, insertPath x overlayPath g.encode =
        .ok (.table (insertMember "defaults" (g.defaults.overlayDocument vmm x) (present g.fields))) := by
      intro x
      have hdefaults := MachineSpecPatch.insertPath_overlay hvmm x
      unfold MachineSpecPatch.overlayPath at hdefaults
      simp only [overlayPath, encode, insertPath, g.lookup_defaults, Option.getD_some]
      rw [hdefaults]
    simp only [insertTomlPath, hinsert] at hdocument
    cases hdocument
    refine validateKeys_table fun m hm => ?_
    rcases mem_insertMember hm with rfl | hm
    · exact .table (by decide) rfl fun path => g.defaults.validateKeys_overlay vmm _ file path
    · exact member_known hm

theorem fromToml_toToml {g : GlobalConfig} (hwf : g.defaults.Wf) (hvalid : g.defaults.validate = .ok ())
    (himages : g.images.validate = .ok ())
    (h : RoundTrips lib g.encode g.defaults.overlay overlayPath "config.toml") :
    ∃ text, GlobalConfig.toToml lib g = .ok text ∧ GlobalConfig.fromToml lib text = .ok g := by
  obtain ⟨doc, text, hserialize, hparse, hdoc, hsplit⟩ := exists_document h
    (fun value ho => MachineSpecPatch.isObject_of_validate hvalid ho) (fun _ => g.takePath_encode)
    fun value ho => vacant_of_overlay ho
  have hkeys : validateKnownKeys lib text .global "config.toml" = .ok () := by
    simp only [validateKnownKeys, parseToml, hparse, bind, Except.bind]
    exact validateKeys_document hdoc ""
  have hdecode := hsplit (GlobalConfig.decode_encode hwf hvalid)
  have hback : (match g.defaults.overlay with
      | some overlay => { g.withoutOverlay with defaults := g.withoutOverlay.defaults.setOverlay overlay }
      | none => g.withoutOverlay) = g := by
    split
    · simp only [withoutOverlay, MachineSpecPatch.setOverlay_withoutOverlay ‹_›]
    · simp only [withoutOverlay, MachineSpecPatch.withoutOverlay_eq ‹_›]
  refine ⟨text, ?_, ?_⟩
  · simp only [GlobalConfig.toToml, hvalid, encode_withoutOverlay, bind, Except.bind, hserialize]
  · simp only [GlobalConfig.fromToml, hkeys, hdecode, bind, Except.bind, hback, hvalid, himages]

end GlobalConfig

/-- **Spec documents round-trip**: a valid layer or global configuration is written, and what is written is read back as
it was, whatever its overlay holds. -/
theorem documents_roundTrip (lib : DocumentLib) :
    (∀ p : MachineSpecPatch, p.Wf → p.validate = .ok () →
      RoundTrips lib p.encode p.overlay MachineSpecPatch.overlayPath "firestone.toml" →
      ∃ text, MachineSpecPatch.toToml lib p = .ok text ∧ MachineSpecPatch.fromToml lib text = .ok p) ∧
    (∀ g : GlobalConfig, g.defaults.Wf → g.defaults.validate = .ok () → g.images.validate = .ok () →
      RoundTrips lib g.encode g.defaults.overlay GlobalConfig.overlayPath "config.toml" →
      ∃ text, GlobalConfig.toToml lib g = .ok text ∧ GlobalConfig.fromToml lib text = .ok g) :=
  ⟨fun _ hwf hvalid h => MachineSpecPatch.fromToml_toToml hwf hvalid h,
    fun _ hwf hvalid himages h => GlobalConfig.fromToml_toToml hwf hvalid himages h⟩

section sample

/-- An overlay with nulls at two depths. -/
def sampleOverlay : Json := .obj [("memory", .obj [("shared", .null)]), ("serial", .null)]

def sampleOverlayText : String := "\x7b\"memory\":\x7b\"shared\":null\x7d,\"serial\":null\x7d"

def samplePatch : MachineSpecPatch := { vmm := some { configOverlay := some sampleOverlay } }

/-- The libraries on the two documents of the layer: without its overlay and with it. -/
def sampleLib : DocumentLib where
  parseToml text :=
    if text = "[vmm]\n" then .ok samplePatch.encode
    else if text = "[vmm]\nconfig_overlay = '" ++ sampleOverlayText ++ "'\n" then
      .ok (samplePatch.overlayDocument {} (.string sampleOverlayText))
    else .error "expected a table"
  tomlToString
    | .table [("vmm", .table [])] => .ok "[vmm]\n"
    | .table [("vmm", .table [("config_overlay", .string text)])] => .ok ("[vmm]\nconfig_overlay = '" ++ text ++ "'\n")
    | _ => .error "unsupported"
  decodeError _ := ("", "invalid type")
  jsonToString value := if value = sampleOverlay then .ok sampleOverlayText else .error "unsupported"
  jsonFromStr text := if text = sampleOverlayText then .ok sampleOverlay else .error "expected value"

theorem documents_roundTrip_null : ∃ text, MachineSpecPatch.toToml sampleLib samplePatch = .ok text ∧
    MachineSpecPatch.fromToml sampleLib text = .ok samplePatch := by
  refine (documents_roundTrip sampleLib).1 samplePatch ⟨?_, ?_, ?_, ?_⟩ rfl ⟨⟨"[vmm]\n", rfl, rfl⟩, ?_, ?_⟩
  · intro size h
    cases h
  · intro size h
    cases h
  · intro size h
    cases h
  · intro vmm firmware h hf
    cases h
    cases hf
  · intro doc h
    cases h
    exact ⟨"[vmm]\nconfig_overlay = '" ++ sampleOverlayText ++ "'\n", rfl, rfl⟩
  · intro value h
    cases h
    exact ⟨sampleOverlayText, rfl, rfl⟩

end sample

end roundTrip

end documents

end Firestone
