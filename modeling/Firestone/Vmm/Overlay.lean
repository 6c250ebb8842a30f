import Firestone.Spec
import Firestone.Vmm.Config

/-!
# What an overlay cannot change

`canonical_vm_config` takes any JSON object as an overlay and then compares the merged value with the one it rendered.
`canonicalVmConfig_contained` says what is left when it returns: everything Firestone rendered is in the result, at the
same place (`Json.Extends`), the sections it left out are still out, the boot mode is one, and the first disk is the
writable root disk.
-/

namespace Firestone.Vmm

open Firestone.Lib

/-! ## The boot payload -/

inductive CatalogFirmware
  | rhf | edk2
  deriving DecidableEq, Repr

inductive EffectiveFirmware
  | rhf | edk2 | custom (path : String)
  deriving DecidableEq, Repr

/-- The policy of the spec; `auto` leaves it to the catalog, and then to the architecture. -/
def effectiveFirmware (firmware : Firmware) (architecture : Arch) (catalogFirmware : Option CatalogFirmware) :
    EffectiveFirmware :=
  match firmware with
  | .path path => .custom path
  | .rhf => .rhf
  | .edk2 => .edk2
  | .auto =>
    match catalogFirmware.getD (match architecture with | .x86_64 => .rhf | .aarch64 => .edk2) with
    | .rhf => .rhf
    | .edk2 => .edk2

/-- The dependency manifest and the files it names, as boot preparation finds them. -/
structure BootFiles where
  /-- The manifest's kernel for direct boot, verified. -/
  directBootKernel : Arch → Res String
  /-- An artifact of the manifest, verified. -/
  installed : String → Arch → Res String
  /-- `require_custom_firmware`. -/
  requireCustom : String → Res Unit

def directBootCmdline : String := "console=hvc0 console=ttyS0 root=/dev/vda rw init=/sbin/firestone-init"

def firmwareText : Firmware → String
  | .auto => "auto"
  | .rhf => "rhf"
  | .edk2 => "edk2"
  | .path path => path

def requireAutoFirmwareForDirectBoot (firmware : Firmware) : Res Unit :=
  if firmware = .auto then .ok ()
  else .error ⟨.invalidSpec,
    "vmm.firmware `" ++ firmwareText firmware ++ "` cannot be used by an OCI machine: it boots the pinned kernel directly",
    some "remove vmm.firmware, or leave it `auto`, for an OCI machine", some "vmm.firmware"⟩

/-- A machine ready to be configured. -/
structure VmPlan where
  name : String
  spec : VmSpec
  firmware : Firmware
  cid : Nat
  network : NetworkPlan
  filesystems : List VirtiofsPlan
  architecture : Arch
  catalogFirmware : Option CatalogFirmware
  oci : Bool
  paths : VmPaths

def relativeFirmwareError (path : String) : FirestoneError :=
  (FirestoneError.new .invalidSpec ("custom firmware path '" ++ path ++ "' is not absolute")).withHint
    "resolve custom firmware through Paths before building VmConfig"

/-- `resolve_payload`: one kernel or one firmware. -/
def resolvePayload (files : BootFiles) (plan : VmPlan) : Res PayloadConfig :=
  if plan.oci then do
    requireAutoFirmwareForDirectBoot plan.firmware
    let kernel ← files.directBootKernel plan.architecture
    .ok ⟨none, some kernel, some directBootCmdline⟩
  else
    match effectiveFirmware plan.firmware plan.architecture plan.catalogFirmware with
    | .rhf => do
      let path ← files.installed "rust-hypervisor-firmware" plan.architecture
      .ok ⟨none, some path, none⟩
    | .edk2 => do
      let path ← files.installed "cloud-hypervisor-edk2" plan.architecture
      .ok ⟨some path, none, none⟩
    | .custom path =>
      if path.startsWith "/" then do
        files.requireCustom path
        .ok ⟨some path, none, none⟩
      else .error (relativeFirmwareError path)

def VmPlan.input (files : BootFiles) (plan : VmPlan) : VmConfigInput :=
  ⟨plan.name, plan.spec, plan.cid, plan.network, plan.filesystems, plan.oci, plan.paths, resolvePayload files plan⟩

/-- A machine boots one way. -/
theorem resolvePayload_one {files : BootFiles} {plan : VmPlan} {payload : PayloadConfig}
    (h : resolvePayload files plan = .ok payload) :
    (payload.kernel.isSome = true ∧ payload.firmware = none) ∨ (payload.firmware.isSome = true ∧ payload.kernel = none) := by
  unfold resolvePayload at h
  split at h
  · obtain ⟨_, _, h⟩ := Res.bind_ok h
    obtain ⟨kernel, _, h⟩ := Res.bind_ok h
    cases h
    exact Or.inl ⟨rfl, rfl⟩
  · split at h
    · obtain ⟨path, _, h⟩ := Res.bind_ok h
      cases h
      exact Or.inl ⟨rfl, rfl⟩
    · obtain ⟨path, _, h⟩ := Res.bind_ok h
      cases h
      exact Or.inr ⟨rfl, rfl⟩
    · split at h
      · obtain ⟨_, _, h⟩ := Res.bind_ok h
        cases h
        exact Or.inr ⟨rfl, rfl⟩
      · cases h

/-! ## Values that extend another -/

/-- The place of a value is kept: a leaf as it is, an object as an object, an array as one that is at least as long. -/
def Keeps : Json → Json → Prop
  | .obj _, found => found.isObject = true
  | .arr items, found => ∃ items', found = .arr items' ∧ items.length ≤ items'.length
  | leaf, found => found = leaf

/-- Every place of `base` is one of `result`, and kept there. -/
def Extends (base result : Json) : Prop :=
  ∀ tokens v, base.pointer tokens = some v → ∃ v', result.pointer tokens = some v' ∧ Keeps v v'

section required

variable {path : String}

theorem requiredItems_getElem? : ∀ {items found : List Json} {index n : Nat} {v : Json}, items.length ≤ found.length →
    requiredItems items found path index = .ok () → items[n]? = some v →
    ∃ c path', found[n]? = some c ∧ requiredSubset v c path' = .ok () := by
  intro items
  induction items with
  | nil => intro found index n v _ _ hv; simp at hv
  | cons value rest ih =>
    intro found index n v hlen h hv
    cases found with
    | nil => simp at hlen
    | cons candidate found =>
      rw [requiredItems] at h
      split at h
      · cases h
      · rename_i hvalue
        cases n with
        | zero =>
          cases hv
          exact ⟨candidate, _, rfl, hvalue⟩
        | succ n =>
          rw [List.getElem?_cons_succ] at hv ⊢
          exact ih (by simpa using hlen) h hv

theorem requiredSubset_arr {items : List Json} {candidate : Json}
    (h : requiredSubset (.arr items) candidate path = .ok ()) :
    ∃ found, candidate = .arr found ∧ items.length ≤ found.length ∧ requiredItems items found path 0 = .ok () := by
  cases candidate with
  | arr found =>
    simp only [requiredSubset] at h
    split at h
    · cases h
    · exact ⟨found, rfl, by omega, h⟩
  | _ => simp [requiredSubset] at h

/-- A value that passes the check is kept. -/
theorem keeps_of_requiredSubset {required candidate : Json} (h : requiredSubset required candidate path = .ok ()) :
    Keeps required candidate := by
  have hleaf : (if required = candidate then .ok () else .error (displayPath path) : Except String Unit) = .ok () →
      candidate = required := by
    intro h
    split at h
    · rename_i heq
      exact heq.symm
    · cases h
  cases required with
  | obj members =>
    obtain ⟨found, rfl, _⟩ := requiredSubset_obj h
    rfl
  | arr items =>
    obtain ⟨found, rfl, hlen, _⟩ := requiredSubset_arr h
    exact ⟨found, rfl, hlen⟩
  | null => exact hleaf (by simpa only [requiredSubset] using h)
  | bool b => exact hleaf (by simpa only [requiredSubset] using h)
  | num n => exact hleaf (by simpa only [requiredSubset] using h)
  | str s => exact hleaf (by simpa only [requiredSubset] using h)

theorem mem_of_lookup {k : String} {v : Json} : ∀ {ms : List (String × Json)}, ms.lookup k = some v → (k, v) ∈ ms := by
  intro ms
  induction ms with
  | nil => intro h; cases h
  | cons m ms ih =>
    intro h
    obtain ⟨k', v'⟩ := m
    rw [List.lookup_cons] at h
    split at h
    · rename_i hk
      cases h
      rw [beq_iff_eq.mp hk]
      exact List.mem_cons_self
    · exact List.mem_cons_of_mem _ (ih h)

theorem pointer_key (members : List (String × Json)) (k : String) (tokens : List Json.Token) :
    (Json.obj members).pointer (.key k :: tokens) = (members.lookup k).bind fun w => w.pointer tokens := by
  rw [Json.pointer]
  cases members.lookup k <;> rfl

/-- An object takes an index as a key. -/
theorem pointer_index (members : List (String × Json)) (n : Nat) (tokens : List Json.Token) :
    (Json.obj members).pointer (.index n :: tokens) = (members.lookup (toString n)).bind fun w => w.pointer tokens := by
  rw [Json.pointer]
  cases members.lookup (toString n) <;> rfl

/-- The check of a value checks every place in it. -/
theorem extends_of_requiredSubset {required candidate : Json} (h : requiredSubset required candidate path = .ok ()) :
    Extends required candidate := by
  intro tokens
  induction tokens generalizing required candidate path with
  | nil =>
    intro v hv
    cases hv
    exact ⟨candidate, rfl, keeps_of_requiredSubset h⟩
  | cons token tokens ih =>
    intro v hv
    cases required with
    | obj members =>
      obtain ⟨found, rfl, hms⟩ := requiredSubset_obj h
      have hmember : ∀ k : String, (members.lookup k).bind (fun w => w.pointer tokens) = some v →
          ∃ v', (found.lookup k).bind (fun w => w.pointer tokens) = some v' ∧ Keeps v v' := by
        intro k hk
        obtain ⟨w, hw, hv⟩ := Option.bind_eq_some_iff.mp hk
        obtain ⟨c, hc, hsub⟩ := requiredMembers_mem hms (mem_of_lookup hw)
        obtain ⟨v', hv', hkeeps⟩ := ih hsub v hv
        exact ⟨v', by rw [hc]; exact hv', hkeeps⟩
      cases token with
      | key k =>
        rw [pointer_key] at hv ⊢
        exact hmember k hv
      | index n =>
        rw [pointer_index] at hv ⊢
        exact hmember (toString n) hv
    | arr items =>
      obtain ⟨found, rfl, hlen, hitems⟩ := requiredSubset_arr h
      cases token with
      | key k => simp [Json.pointer] at hv
      | index n =>
        simp only [Json.pointer] at hv ⊢
        cases hn : items[n]? with
        | none => simp [hn] at hv
        | some w =>
          simp only [hn] at hv
          obtain ⟨c, path', hc, hsub⟩ := requiredItems_getElem? hlen hitems hn
          obtain ⟨v', hv', hkeeps⟩ := ih hsub v hv
          exact ⟨v', by simpa only [hc] using hv', hkeeps⟩
    | null => simp [Json.pointer] at hv
    | bool b => simp [Json.pointer] at hv
    | num n => simp [Json.pointer] at hv
    | str s => simp [Json.pointer] at hv

end required

/-! ## The result -/

def payloadField (k : String) : List Json.Token := [.key "payload", .key k]

/-- What Firestone relies on in a configuration that a user's overlay was merged into. -/
structure OverlayContained (plan : VmPlan) (base merged : List (String × Json)) : Prop where
  leaves : Extends (.obj base) (.obj merged)
  noNet : plan.network = .none → merged.lookup "net" = none
  noFs : plan.filesystems = [] → merged.lookup "fs" = none
  oneBoot : ¬(((Json.obj merged).pointer (payloadField "kernel")).isSome = true ∧
    ((Json.obj merged).pointer (payloadField "firmware")).isSome = true)
  rootDisk : (Json.obj merged).pointer (diskField 0 "path") = some (.str plan.paths.disk)
  writable : (Json.obj merged).pointer (diskField 0 "readonly") = none ∨
    (Json.obj merged).pointer (diskField 0 "readonly") = some (.bool false)

section check

variable {base merged : List (String × Json)} {i : VmConfigInput} {payload : PayloadConfig}

/-- The parts of the check. -/
theorem validateRequiredInvariants_ok (h : validateRequiredInvariants base merged i = .ok ()) :
    (∃ path, requiredSubset (.obj base) (.obj merged) path = .ok ()) ∧
      validateRequiredDefaults (.obj merged) i.network = .ok () ∧
      (i.network = .none → merged.lookup "net" = none) ∧ (i.filesystems = [] → merged.lookup "fs" = none) ∧
      validatePayload base merged = .ok () := by
  obtain ⟨_, hsub, h⟩ := Res.bind_ok h
  obtain ⟨_, hdefaults, h⟩ := Res.bind_ok h
  unfold requireSubset at hsub
  split at hsub
  · cases hsub
  rename_i hsubset
  split at h
  · cases h
  rename_i hnet
  split at h
  · cases h
  rename_i hfs
  refine ⟨⟨_, hsubset⟩, hdefaults, fun hnone => ?_, fun hnil => ?_, h⟩
  · rw [← Option.not_isSome_iff_eq_none]
    exact fun hsome => hnet ⟨hnone, hsome⟩
  · rw [← Option.not_isSome_iff_eq_none]
    exact fun hsome => hfs ⟨by rw [hnil]; rfl, hsome⟩

theorem requireFalseOrAbsent_ok {candidate : Json} {tokens : List Json.Token}
    (h : requireFalseOrAbsent candidate tokens = .ok ()) :
    candidate.pointer tokens = none ∨ candidate.pointer tokens = some (.bool false) := by
  unfold requireFalseOrAbsent at h
  split at h
  · exact Or.inl ‹_›
  · exact Or.inr ‹_›
  · cases h

theorem lookup_baseFields (key : String) :
    (Json.fields (baseFields i payload)).lookup key = ((baseFields i payload).lookup key).join :=
  Json.lookup_fields (by
    show ["cpus", "memory", "payload", "disks", "net", "fs", "vsock", "serial", "console", "rng"].Nodup
    decide)

theorem lookup_payloadConfig (key : String) : (payloadConfig payload).members.lookup key =
    ([("firmware", payload.firmware.map Json.str), ("kernel", payload.kernel.map Json.str),
      ("cmdline", payload.cmdline.map Json.str)].lookup key).join :=
  Json.lookup_fields (by
    show ["firmware", "kernel", "cmdline"].Nodup
    decide)

theorem pointer_payload {key : String} {members : List (String × Json)} (h : merged.lookup "payload" = some (.obj members)) :
    (Json.obj merged).pointer (payloadField key) = members.lookup key := by
  simp only [payloadField, Json.pointer, h]
  cases members.lookup key <;> rfl

/-- The payload of the result boots the way that of the base does. -/
theorem oneBoot_of_checks (hbase : base = Json.fields (baseFields i payload))
    (hone : (payload.kernel.isSome = true ∧ payload.firmware = none) ∨
      (payload.firmware.isSome = true ∧ payload.kernel = none))
    (hleaves : Extends (.obj base) (.obj merged)) (hcheck : validatePayload base merged = .ok ()) :
    ¬(((Json.obj merged).pointer (payloadField "kernel")).isSome = true ∧
      ((Json.obj merged).pointer (payloadField "firmware")).isSome = true) := by
  have hpayload : base.lookup "payload" = some (payloadConfig payload) := by
    rw [hbase, lookup_baseFields]
    rfl
  obtain ⟨v', hv', hkeeps⟩ := hleaves [.key "payload"] (payloadConfig payload) (by simp [Json.pointer, hpayload])
  -- the merged payload is an object
  obtain ⟨members, hmembers⟩ : ∃ members, merged.lookup "payload" = some (.obj members) := by
    simp only [Json.pointer] at hv'
    split at hv'
    · rename_i w hw
      cases hv'
      cases v' with
      | obj members => exact ⟨members, hw⟩
      | _ => cases hkeeps
    · cases hv'
  rw [pointer_payload hmembers, pointer_payload hmembers]
  unfold validatePayload at hcheck
  rw [hmembers, hpayload] at hcheck
  simp only [payloadConfig] at hcheck
  have hlookup : ∀ key, (payloadConfig payload).members.lookup key = _ := fun key => lookup_payloadConfig key
  simp only [payloadConfig, Json.members] at hlookup
  rintro ⟨hk, hf⟩
  rcases hone with ⟨hkernel, _⟩ | ⟨hfirmware, _⟩
  · have hrequired := hlookup "kernel"
    rw [if_pos ⟨by rw [hrequired]; simpa [List.lookup_cons] using hkernel, hf⟩] at hcheck
    cases hcheck
  · split at hcheck
    · cases hcheck
    have hrequired := hlookup "firmware"
    rw [if_pos ⟨by rw [hrequired]; simpa [List.lookup_cons] using hfirmware, hk⟩] at hcheck
    cases hcheck

/-- The first disk of the base is the disk of the machine. -/
theorem pointer_rootDisk : (Json.obj (Json.fields (baseFields i payload))).pointer (diskField 0 "path") =
    some (.str i.paths.disk) := by
  have hdisks : (Json.fields (baseFields i payload)).lookup "disks" = some (disksConfig i) := by
    rw [lookup_baseFields]
    rfl
  simp only [diskField, Json.pointer, hdisks]
  rfl

end check

/-- **Containment.** Whatever the overlay, a configuration that is returned holds everything Firestone rendered. -/
theorem canonicalVmConfig_contained {files : BootFiles} {plan : VmPlan} {merged : List (String × Json)}
    (h : canonicalVmConfig (plan.input files) = .ok merged) :
    ∃ payload base, resolvePayload files plan = .ok payload ∧ baseVmConfig (plan.input files) payload = .ok base ∧
      OverlayContained plan base merged := by
  obtain ⟨payload, hpayload, h⟩ := Res.bind_ok h
  obtain ⟨base, hbase, h⟩ := Res.bind_ok h
  obtain ⟨patch, _, h⟩ := Res.bind_ok h
  obtain ⟨_, hcheck, h⟩ := Res.bind_ok h
  cases h
  obtain ⟨⟨path, hsub⟩, hdefaults, hnet, hfs, hvalid⟩ := validateRequiredInvariants_ok hcheck
  have hfields : base = Json.fields (baseFields (plan.input files) payload) := by
    unfold baseVmConfig at hbase
    split at hbase
    · cases hbase
    · cases hbase
      rfl
  have hleaves := extends_of_requiredSubset hsub
  obtain ⟨_, hreadonly, _⟩ := Res.bind_ok hdefaults
  refine ⟨payload, base, hpayload, hbase, hleaves, hnet, hfs, ?_, ?_, requireFalseOrAbsent_ok hreadonly⟩
  · exact oneBoot_of_checks hfields (resolvePayload_one hpayload) hleaves hvalid
  · have hdisk : (Json.obj base).pointer (diskField 0 "path") = some (.str plan.paths.disk) := by
      rw [hfields]
      exact pointer_rootDisk
    obtain ⟨v', hv', hkeeps⟩ := hleaves _ _ hdisk
    rw [hv', show v' = .str plan.paths.disk from hkeeps]

/-- A machine with a tap, and an overlay that adds a balloon and a field of the random device. -/
def samplePlan : VmPlan where
  name := "web"
  spec := ⟨2, none, 2 ^ 31, none, some (.obj [("balloon", .obj [("size", uint 0)]), ("rng", .obj [("iommu", .bool false)])])⟩
  firmware := .auto
  cid := 3
  network := .tap "tap0" "52:54:00:00:00:01" none none
  filesystems := []
  architecture := .x86_64
  catalogFirmware := none
  oci := false
  paths := ⟨"/m/web/disk.qcow2", "/m/web/seed.img", "/m/web/config.img", "/run/web/vsock.sock", "/m/web/console.log"⟩

def sampleFiles : BootFiles :=
  ⟨fun _ => .ok "/deps/vmlinux", fun name _ => .ok ("/deps/" ++ name), fun _ => .ok ()⟩

theorem canonicalVmConfig_contained_sample : ∃ merged, canonicalVmConfig (samplePlan.input sampleFiles) = .ok merged ∧
    ∃ payload base, resolvePayload sampleFiles samplePlan = .ok payload ∧
      baseVmConfig (samplePlan.input sampleFiles) payload = .ok base ∧ OverlayContained samplePlan base merged := by
  obtain ⟨merged, h⟩ := Res.exists_ok (x := canonicalVmConfig (samplePlan.input sampleFiles)) (by decide)
  exact ⟨merged, h, canonicalVmConfig_contained h⟩

end Firestone.Vmm
