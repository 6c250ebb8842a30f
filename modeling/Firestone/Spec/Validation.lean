import Firestone.Boot.CloudInit
import Firestone.Image.Sources
import Firestone.Lib.TextLines
import Firestone.Lib.Utf8
import Firestone.Spec.ForwardSets
import Firestone.Spec.ValueGrammar
import Firestone.Vmm.Mounts

/-!
# Validation of machine specs

Before a machine is created, and each time its spec is loaded, every path of the spec is made absolute, the image is brought
into its canonical form, and the rest is checked against the host.

* `ValidationHost` — what validation asks the host.
* `MachineSpec` — a spec whose paths need not be text.
* `resolveSpecPaths` — the paths; `Rooted` says what it makes of them.
* `validateImage` — a local file, an OCI reference, a URL or a reference to the catalog.
* `validateCloudInit` — the inputs of cloud-init.
* `validateMachineSpec` — all of it.

The host is a snapshot: it answers the same call the same way. The parsers of URLs and of OpenSSH keys are parameters.
-/

namespace Firestone

open Firestone.Lib

/-- `Firmware::path`. -/
def Firmware.ofPath (path : OsString) : Option Firmware :=
  match path.toStr with
  | none => none
  | some text => if text = "" ∨ Firmware.isReserved text = true then none else some (.path text)

def Firmware.asPath : Firmware → Option OsString
  | .path text => some (.ofString text)
  | _ => none

def Arch.current (architecture : String) : Except String Arch :=
  if architecture = "x86_64" then .ok .x86_64
  else if architecture = "aarch64" then .ok .aarch64
  else .error ("unsupported host architecture '" ++ architecture ++ "'")

end Firestone

namespace Firestone.Validation

open Firestone.Lib Firestone.Image.Catalogs
open Firestone.Image.Sources (resolveInputPath)

/-! ## Specs -/

structure CloudInitSpec where
  userData : Option OsString := none
  userDataInline : Option String := none
  networkConfig : Option OsString := none
  sshKeys : List OsString := []
  sshAuthorizedKeys : List String := []
  password : Option String := none
  sshPwauth : Bool := false
  provisioning : Bool := true
  deriving DecidableEq

structure VmmSpec where
  binary : Option OsString := none
  firmware : Firmware := .auto
  extraArgs : List String := []
  configOverlay : Option Json := none
  deriving DecidableEq

/-- A machine spec, whose paths need not be text. -/
structure MachineSpec where
  image : ImageRef := default
  arch : Option Arch := none
  cpus : UInt8 := 2
  cpusMax : Option UInt8 := none
  memory : ByteSize := .builtinMemory
  memoryMax : Option ByteSize := none
  disk : ByteSize := .builtinDisk
  user : String := "root"
  network : NetworkSpec := {}
  mounts : List Vmm.Virtiofs.MountSpec := []
  cloudInit : CloudInitSpec := {}
  vmm : VmmSpec := {}
  deriving DecidableEq

/-! ## The host -/

inductive IoErrorKind
  | notFound | permissionDenied | invalidInput | invalidData | other
  deriving DecidableEq, Repr

structure SpecWarning where
  key : String
  message : String
  deriving DecidableEq, Repr

structure ValidationHost where
  architecture : Res Arch
  cpuCount : Nat
  pathExists : OsString → Except IoErrorKind Bool
  pathIsReadable : OsString → Except IoErrorKind Bool
  pathIsFile : OsString → Except IoErrorKind Bool
  canonicalizeRegularNofollow : OsString → Except IoErrorKind OsString
  pathIsExecutable : OsString → Except IoErrorKind Bool
  readRegularFile : OsString → Nat → Except IoErrorKind Bytes
  tapDeviceIsTap : String → Except IoErrorKind Bool
  tunIsAccessible : Except IoErrorKind Unit

/-- A key that was read; keys are compared by their data. -/
structure PublicKey where
  keyData : Bytes
  deriving DecidableEq, Repr

structure ValidationContext where
  host : ValidationHost
  homeDir : Option OsString
  machineDir : OsString
  catalog : Catalog
  parser : UrlParser
  fromOpenssh : String → Option PublicKey
  baseImageVirtualSize : Option ByteSize := none
  pinnedImageRef : Option String := none

/-- An error of a field. -/
def invalid (key message hint : String) : FirestoneError :=
  { kind := .invalidSpec, message := "invalid '" ++ key ++ "': " ++ message, hint := some hint, field := some key }

section Host

variable (host : ValidationHost) (key : String) (path : OsString)

def hostPathExists : Res Bool :=
  match host.pathExists path with
  | .ok found => .ok found
  | .error _ => .error <| invalid key ("cannot inspect '" ++ path.display ++ "'")
      "check the path and its parent-directory permissions"

def requireReadable (hint : String) : Res Unit :=
  match host.pathIsReadable path with
  | .ok true => .ok ()
  | .ok false => .error <| invalid key ("'" ++ path.display ++ "' is not readable") hint
  | .error _ => .error <| invalid key ("cannot open '" ++ path.display ++ "'") hint

def requireRegularFile (hint : String) : Res Unit :=
  match host.pathIsFile path with
  | .ok true => .ok ()
  | .ok false => .error <| invalid key ("'" ++ path.display ++ "' is not a regular file") hint
  | .error _ => .error <| invalid key ("cannot inspect file type for '" ++ path.display ++ "'") hint

def requireExecutable (hint : String) : Res Unit :=
  match host.pathIsExecutable path with
  | .ok true => .ok ()
  | .ok false => .error <| invalid key ("'" ++ path.display ++ "' is not executable by the current user") hint
  | .error _ => .error <| invalid key ("cannot check execute access for '" ++ path.display ++ "'") hint

def readRequiredFile (limit : Nat) (limitLabel hint : String) : Res Bytes :=
  match host.readRegularFile path limit with
  | .ok contents => .ok contents
  | .error .notFound => .error <| invalid key ("file '" ++ path.display ++ "' does not exist") hint
  | .error .invalidInput => .error <| invalid key ("'" ++ path.display ++ "' is not a regular file") hint
  | .error .invalidData => .error <| invalid key ("file '" ++ path.display ++ "' exceeds " ++ limitLabel) hint
  | .error .permissionDenied => .error <| invalid key ("'" ++ path.display ++ "' is not readable by the current user") hint
  | .error .other => .error <| invalid key ("cannot read '" ++ path.display ++ "'") hint

end Host

/-! ## Paths -/

section Paths

variable (context : ValidationContext)

def resolvePath (path : OsString) (key : String) : Res OsString :=
  resolveInputPath context.homeDir path context.machineDir key

def resolveMount (mount : Vmm.Virtiofs.MountSpec × Nat) : Res Vmm.Virtiofs.MountSpec := do
  let host ← resolvePath context mount.1.host ("mount[" ++ toString mount.2 ++ "].host")
  return { mount.1 with host }

def resolveFirmware (firmware : Firmware) : Res Firmware :=
  match firmware.asPath with
  | none => .ok firmware
  | some path => do
    let resolved ← resolvePath context path "vmm.firmware"
    match Firmware.ofPath resolved with
    | some firmware => .ok firmware
    | none =>
      .error <| invalid "vmm.firmware" "firmware path is empty"
        "set a non-empty firmware path or choose 'auto', 'rhf', or 'edk2'"

def resolveSpecPaths (spec : MachineSpec) : Res MachineSpec := do
  let mounts ← spec.mounts.zipIdx.mapM (resolveMount context)
  let userData ← spec.cloudInit.userData.mapM fun path => resolvePath context path "cloud_init.user_data"
  let networkConfig ← spec.cloudInit.networkConfig.mapM fun path => resolvePath context path "cloud_init.network_config"
  let sshKeys ← spec.cloudInit.sshKeys.zipIdx.mapM fun path =>
    resolvePath context path.1 ("cloud_init.ssh_keys[" ++ toString path.2 ++ "]")
  let binary ← spec.vmm.binary.mapM fun path => resolvePath context path "vmm.binary"
  let firmware ← resolveFirmware context spec.vmm.firmware
  return { spec with
    mounts
    cloudInit := { spec.cloudInit with userData, networkConfig, sshKeys }
    vmm := { spec.vmm with binary, firmware } }

end Paths

/-! ## The image -/

def imageRefFromPath (path : OsString) : Res ImageRef :=
  match path.toStr with
  | some text => .ok ⟨text⟩
  | none => .error <| invalid "image" ("local image path '" ++ path.display ++ "' is not valid UTF-8")
      "move the image under a UTF-8 path before adding it to firestone.toml"

def looksLikePath (reference : String) : Bool :=
  isAbsolute (.ofString reference) || reference.toList.head? = some '.' || reference.toList.head? = some '~' ||
    reference.toList.contains '/' ||
    [".qcow2", ".raw", ".img"].any fun suffix => suffix.toList.isSuffixOf reference.toList

def looksLikeUrl (reference : String) : Bool := "://".toList <:+: reference.toList

def validateHttpsUrl (parser : UrlParser) (reference : String) : Res Unit :=
  if reference.toList.any isWhitespace then
    .error <| invalid "image" ("image URL '" ++ reference ++ "' is malformed")
      "use a complete https:// URL without whitespace"
  else match parser reference with
    | none => .error <| invalid "image" ("image URL '" ++ reference ++ "' is malformed") "use a complete https:// URL"
    | some (parsed, syntaxViolation) =>
      if parsed.scheme ≠ "https" then
        .error <| invalid "image" ("image URL '" ++ reference ++ "' does not use HTTPS")
          "use https://; insecure downloads are not supported"
      else if syntaxViolation || !parsed.hasHost || parsed.username ≠ "" || parsed.password.isSome ||
          parsed.authority.toList.contains '@' || parsed.fragment.isSome then
        .error <| invalid "image" ("image URL '" ++ reference ++ "' is incomplete or malformed")
          "use a complete https:// URL with a host and without credentials or a fragment"
      else .ok ()

section Image

variable (context : ValidationContext)

def imagePath (reference : String) (baseDir : OsString) : Res OsString :=
  resolveInputPath context.homeDir (.ofString reference) baseDir "image"

/-- The image is a file that exists. -/
def validateLocalImage (candidate : OsString) : Res ImageRef := do
  requireRegularFile context.host "image" candidate "choose a qcow2 or raw image file, not a directory"
  requireReadable context.host "image" candidate "make the image file readable or choose another image"
  match context.host.canonicalizeRegularNofollow candidate with
  | .ok canonical => imageRefFromPath canonical
  | .error _ =>
    .error <| invalid "image" ("cannot canonicalize local image '" ++ candidate.display ++ "'")
      "use a readable non-symlink regular image file"

/-- The image is a URL or a reference to the catalog. -/
def validateNamedImage (arch : Arch) (candidate : OsString) (image : ImageRef) : Res ImageRef :=
  if looksLikeUrl image.text then do
    validateHttpsUrl context.parser image.text
    return image
  else match context.catalog.resolve image.text arch.asStr with
    | .ok _ => .ok image
    | .error error =>
      if (context.catalog.find image.text).isSome then
        .error <| invalid "image" error.message (error.hint.getD "choose an image available for this host architecture")
      else if looksLikePath image.text then
        .error <| invalid "image" ("local image '" ++ candidate.display ++ "' does not exist")
          "correct the image path or choose a catalog reference such as 'ubuntu:24.04'"
      else .error <| invalid "image" error.message (error.hint.getD "choose an image listed by `firestone images ls`")

/-- The image is no file. What is explicitly an OCI reference must parse. -/
def validateRemoteImage (arch : Arch) (candidate : OsString) (image : ImageRef) : Res ImageRef :=
  match Oci.References.classify image.text with
  | none => validateNamedImage context arch candidate image
  | some classification =>
    match Oci.References.parse image.text with
    | .ok parsed => .ok ⟨parsed.text⟩
    | .error error =>
      if classification.isExplicit then
        .error <| invalid "image" error.message
          (error.hint.getD "write an OCI reference such as 'docker://nginx:latest'")
      else validateNamedImage context arch candidate image

def validateImage (arch : Arch) (imageBaseDir : OsString) (image : ImageRef) : Res ImageRef :=
  if trim image.text = "" then
    .error <| invalid "image" "image reference is empty"
      "set image to a catalog reference, an https URL, or an existing local file"
  else if context.pinnedImageRef = some image.text then .ok image
  else do
    let candidate ← imagePath context image.text imageBaseDir
    let found ← hostPathExists context.host "image" candidate
    if found then validateLocalImage context candidate else validateRemoteImage context arch candidate image

end Image

/-! ## The machine -/

section Machine

variable (context : ValidationContext) (spec : MachineSpec)

def validateArch : Res Arch := do
  let hostArch ← context.host.architecture
  match spec.arch with
  | none => return hostArch
  | some arch =>
    if arch ≠ hostArch then
      throw <| invalid "arch" ("guest architecture '" ++ arch.asStr ++ "' does not match host architecture '" ++
        hostArch.asStr ++ "'")
        "remove 'arch' or set it to the host architecture; cross-architecture emulation is not supported"
    else return arch

def cpusWarning : List SpecWarning :=
  if context.host.cpuCount < spec.cpus.toNat then
    [⟨"cpus", "configured " ++ toString spec.cpus.toNat ++ " vCPUs but the host reports " ++
      toString context.host.cpuCount ++ " logical CPUs"⟩]
  else []

def validateCpus : Res Unit :=
  if spec.cpus = 0 then .error <| invalid "cpus" "CPU count must be at least 1" "set cpus to 1 or more"
  else match spec.cpusMax with
    | none => .ok ()
    | some cpusMax =>
      if cpusMax < spec.cpus then
        .error <| invalid "cpus_max" ("cpus_max " ++ toString cpusMax.toNat ++ " is below the boot cpus " ++
          toString spec.cpus.toNat) ("set cpus_max to " ++ toString spec.cpus.toNat ++ " or more, or remove it")
      else .ok ()

def validateMemory : Res Unit :=
  if spec.memory.bytes < ByteSize.minimumMemory.bytes then
    .error <| invalid "memory" ("memory " ++ spec.memory.display ++ " is below the 128M minimum")
      "set memory to at least '128M'"
  else match spec.memoryMax with
    | none => .ok ()
    | some memoryMax =>
      if memoryMax.bytes < spec.memory.bytes then
        .error <| invalid "memory_max" ("memory_max " ++ memoryMax.display ++ " is below the boot memory " ++
          spec.memory.display) ("set memory_max to at least '" ++ spec.memory.display ++ "', or remove it")
      else .ok ()

def validateDisk : Res Unit :=
  match context.baseImageVirtualSize with
  | none => .ok ()
  | some baseSize =>
    if spec.disk.bytes < baseSize.bytes then
      .error <| invalid "disk" ("disk " ++ spec.disk.display ++ " is smaller than the base image virtual size " ++
        baseSize.display) ("set disk to at least '" ++ baseSize.display ++ "'")
    else .ok ()

def validateCapacity : Res (List SpecWarning) := do
  validateCpus spec
  validateMemory spec
  validateDisk context spec
  return cpusWarning context spec

end Machine

def isUserStart (byte : UInt8) : Bool := (0x61 ≤ byte && byte ≤ 0x7a) || byte = 0x5f

def isUserByte (byte : UInt8) : Bool :=
  (0x61 ≤ byte && byte ≤ 0x7a) || (0x30 ≤ byte && byte ≤ 0x39) || byte = 0x5f || byte = 0x2d

def validateUser (user : String) : Res Unit :=
  let valid := match bytes user with
    | [] => false
    | first :: rest => isUserStart first && rest.all isUserByte
  if valid then .ok ()
  else .error <| invalid "user" ("login user '" ++ user ++ "' is invalid") "use a name matching [a-z_][a-z0-9_-]*"

/-! ## The network and the mounts -/

/-- `IFNAMSIZ` less the byte that ends the name. -/
def maxTapNameBytes : Nat := 15

def validateTapName (tap : String) : Res Unit :=
  if tap = "" ∨ maxTapNameBytes < tap.utf8ByteSize ∨ '/' ∈ tap.toList ∨ 0 ∈ bytes tap ∨ tap = "." ∨ tap = ".." then
    .error <| invalidNetwork "network.tap" ("tap interface name '" ++ tap ++ "' is invalid")
      ("use a Linux interface name of at most " ++ toString maxTapNameBytes ++
        " bytes, such as 'tap0', without path separators")
  else .ok ()

def validateTap (tap : String) (host : ValidationHost) : Res Unit := do
  validateTapName tap
  match host.tapDeviceIsTap tap with
  | .error _ =>
    throw <| (FirestoneError.new .dependency
      ("invalid 'network.tap': cannot inspect TAP interface '" ++ tap ++ "'")).withHint
      "check that /sys/class/net is mounted and readable"
  | .ok false =>
    throw <| invalidNetwork "network.tap"
      ("interface '" ++ tap ++ "' does not exist or is not a TAP device")
      ("create a user-owned tap named '" ++ tap ++ "' or choose network.mode = 'passt'")
  | .ok true =>
    match host.tunIsAccessible with
    | .ok () => return ()
    | .error _ =>
      throw <| (FirestoneError.new .dependency
        "invalid 'network.tap': /dev/net/tun is not accessible for tap mode").withHint
        "grant this user read/write access to /dev/net/tun or choose network.mode = 'passt'"

section Devices

variable (context : ValidationContext) (spec : MachineSpec)

def validateNetwork : Res Unit :=
  if spec.network.mode ≠ .tap then .ok ()
  else match spec.network.tap with
    | none => .error <| invalid "network.tap" "tap mode requires an existing tap interface"
        "set network.tap to a user-owned interface such as 'tap0'"
    | some tap => validateTap tap context.host

def validateMountSource (mount : Vmm.Virtiofs.MountSpec × Nat) : Res Unit := do
  let key := "mount[" ++ toString mount.2 ++ "].host"
  let found ← hostPathExists context.host key mount.1.host
  if found then return ()
  else
    throw <| invalid key ("mount source '" ++ mount.1.host.display ++ "' does not exist")
      "correct the host path or create it before starting the machine"

def validateMounts : Res Unit := do
  let _ ← Vmm.Virtiofs.mountShapes spec.mounts
  spec.mounts.zipIdx.forM (validateMountSource context)

end Devices

/-! ## Cloud-init -/

def maxUserDataBytes : Nat := 1024 * 1024
def maxNetworkConfigBytes : Nat := 1024 * 1024
def maxSshKeyFileBytes : Nat := 64 * 1024
def maxPasswordBytes : Nat := 256

/-- The first key that the spec sets. Defaults are no inputs. -/
def firstCloudInitInput (cloudInit : CloudInitSpec) : Option String :=
  if cloudInit.userData.isSome then some "cloud_init.user_data"
  else if cloudInit.userDataInline.isSome then some "cloud_init.user_data_inline"
  else if cloudInit.networkConfig.isSome then some "cloud_init.network_config"
  else if cloudInit.sshKeys ≠ [] then some "cloud_init.ssh_keys"
  else if cloudInit.sshAuthorizedKeys ≠ [] then some "cloud_init.ssh_authorized_keys"
  else if cloudInit.password.isSome then some "cloud_init.password"
  else if cloudInit.sshPwauth then some "cloud_init.ssh_pwauth"
  else if !cloudInit.provisioning then some "cloud_init.provisioning"
  else none

def imageIsOci (reference : String) : Bool :=
  (Oci.References.classify reference).isSome &&
    match Oci.References.parse reference with
    | .ok parsed => parsed.text = reference
    | .error _ => false

def refuseCloudInitOnOci (spec : MachineSpec) : Res Unit :=
  if !imageIsOci spec.image.text then .ok ()
  else match firstCloudInitInput spec.cloudInit with
    | none => .ok ()
    | some field => .error <| invalid field (field ++ " cannot be used by an OCI machine: image '" ++ spec.image.text ++
        "' boots firestone-init, not cloud-init")
        ("remove the cloud_init keys; an OCI machine takes its hostname, network, disk size, entrypoint, cmd, env, " ++
          "workdir and user from the config disk")

def validateInlineUserData (userData : String) : Res Unit :=
  let key := "cloud_init.user_data_inline"
  if Boot.maxInlineUserDataBytes < userData.utf8ByteSize then
    .error <| invalid key ("inline user-data is " ++ toString userData.utf8ByteSize ++ " bytes")
      "reduce inline user-data to 32 KiB or move it to a 'cloud_init.user_data' file"
  else if Boot.firstLine (bytes userData) ≠ bytes "#cloud-config" ∧
      (bytes "#!").isPrefixOf (Boot.firstLine (bytes userData)) = false then
    .error <| invalid key "inline user-data has an unsupported first line"
      ("start inline user-data with '#cloud-config' or '#!'; set provisioning = false when using a raw shell script")
  else .ok ()

def validatePassword (password : String) : Res Unit :=
  let key := "cloud_init.password"
  if password = "" then
    .error <| invalid key "password is empty" "set a non-empty password or clear 'cloud_init.password'"
  else if maxPasswordBytes < password.utf8ByteSize then
    .error <| invalid key ("password is " ++ toString password.utf8ByteSize ++ " bytes") "use a password of 256 bytes or less"
  else if password.toList.any isControl then
    .error <| invalid key "password contains a control character"
      "use a password without newlines, tabs, or other control characters"
  else .ok ()

/-- The lines of a key file that hold keys. -/
def keyLines (text : String) : List String :=
  ((textLines text).map trim).filter fun line => line ≠ "" && line.toList.head? ≠ some '#'

section CloudInit

variable (context : ValidationContext)

/-- An inline key is checked like one from a file. -/
def validateInlineAuthorizedKey (entry : String × Nat) : Res Unit :=
  let field := "cloud_init.ssh_authorized_keys[" ++ toString entry.2 ++ "]"
  let line := trim entry.1
  if line = "" ∨ line.toList.head? = some '#' then
    .error <| invalid field "inline authorized key is empty or a comment"
      "supply one OpenSSH public key such as 'ssh-ed25519 AAAA… user@host'"
  else if (textLines line).length ≠ 1 then
    .error <| invalid field "inline authorized key contains more than one line"
      "supply exactly one OpenSSH public key per entry"
  else if maxSshKeyFileBytes < line.utf8ByteSize then
    .error <| invalid field ("inline authorized key is " ++ toString line.utf8ByteSize ++ " bytes")
      "supply an OpenSSH public key of 64 KiB or less"
  else match context.fromOpenssh line with
    | some _ => .ok ()
    | none => .error <| invalid field "inline authorized key is not a valid OpenSSH public key"
        "replace the entry with an OpenSSH public key"

def validateUserDataFile (path : OsString) : Res Unit := do
  let key := "cloud_init.user_data"
  let contents ← readRequiredFile context.host key path maxUserDataBytes "1 MiB"
    "correct the path and provide UTF-8 user-data of 1 MiB or less"
  if !Boot.isUtf8 contents then
    .error <| invalid key ("user-data file '" ++ path.display ++ "' is not UTF-8")
      "save user-data as UTF-8 without changing its cloud-init header"
  else if Boot.firstLine contents ≠ bytes "#cloud-config" ∧ (bytes "#!").isPrefixOf (Boot.firstLine contents) = false then
    .error <| invalid key ("user-data file '" ++ path.display ++ "' has an unsupported first line")
      "start the file with '#cloud-config' or '#!'; set provisioning = false when using a raw shell script"
  else return ()

def validateNetworkConfigFile (path : OsString) : Res Unit := do
  let key := "cloud_init.network_config"
  let contents ← readRequiredFile context.host key path maxNetworkConfigBytes "1 MiB"
    "correct the path and provide UTF-8 network-config of 1 MiB or less"
  if !Boot.isUtf8 contents then
    .error <| invalid key ("network-config file '" ++ path.display ++ "' is not UTF-8") "save network-config as UTF-8 YAML"
  else return ()

def validateSshKeyFile (path : OsString × Nat) : Res Unit := do
  let key := "cloud_init.ssh_keys[" ++ toString path.2 ++ "]"
  let contents ← readRequiredFile context.host key path.1 maxSshKeyFileBytes "64 KiB"
    "correct the path and provide an OpenSSH public-key file of 64 KiB or less"
  match fromUtf8 contents with
  | none =>
    .error <| invalid key ("public-key file '" ++ path.1.display ++ "' is not UTF-8")
      "replace it with an OpenSSH public-key file"
  | some text =>
    if !(keyLines text).all fun line => (context.fromOpenssh line).isSome then
      .error <| invalid key ("public-key file '" ++ path.1.display ++ "' contains an invalid OpenSSH key")
        "replace the invalid line with an OpenSSH public key"
    else if keyLines text = [] then
      .error <| invalid key ("public-key file '" ++ path.1.display ++ "' contains no keys")
        "add at least one OpenSSH public key"
    else return ()

/-- A check of a value that may be absent. -/
def checkSome {α : Type} (check : α → Res Unit) : Option α → Res Unit
  | none => .ok ()
  | some value => check value

def validateCloudInit (spec : MachineSpec) : Res Unit := do
  refuseCloudInitOnOci spec
  if spec.cloudInit.userData.isSome ∧ spec.cloudInit.userDataInline.isSome then
    .error <| invalid "cloud_init.user_data_inline"
      "'cloud_init.user_data' and 'cloud_init.user_data_inline' are both set"
      "keep one user part: clear 'cloud_init.user_data' or 'cloud_init.user_data_inline'"
  else do
    checkSome validateInlineUserData spec.cloudInit.userDataInline
    spec.cloudInit.sshAuthorizedKeys.zipIdx.forM (validateInlineAuthorizedKey context)
    checkSome validatePassword spec.cloudInit.password
    checkSome (validateUserDataFile context) spec.cloudInit.userData
    checkSome (validateNetworkConfigFile context) spec.cloudInit.networkConfig
    spec.cloudInit.sshKeys.zipIdx.forM (validateSshKeyFile context)

end CloudInit

/-! ## The VMM -/

section Vmm

variable (context : ValidationContext)

def validateBinary (path : OsString) : Res Unit := do
  let found ← hostPathExists context.host "vmm.binary" path
  if !found then
    .error <| invalid "vmm.binary" ("VMM binary '" ++ path.display ++ "' does not exist")
      "correct the path or remove vmm.binary to use the vendored VMM"
  else do
    requireRegularFile context.host "vmm.binary" path "set vmm.binary to an executable file or remove the override"
    requireExecutable context.host "vmm.binary" path "grant execute access to the VMM binary or remove the override"

def validateFirmware (path : OsString) : Res Unit := do
  let found ← hostPathExists context.host "vmm.firmware" path
  if !found then
    .error <| invalid "vmm.firmware" ("firmware path '" ++ path.display ++ "' does not exist")
      "correct the path or choose 'auto', 'rhf', or 'edk2'"
  else do
    requireRegularFile context.host "vmm.firmware" path "set vmm.firmware to a firmware file or choose a named firmware"
    requireReadable context.host "vmm.firmware" path "make the firmware file readable or choose a named firmware"

def validateVmm (spec : MachineSpec) : Res Unit := do
  checkSome (validateBinary context) spec.vmm.binary
  checkSome (validateFirmware context) spec.vmm.firmware.asPath
  if spec.vmm.configOverlay.any fun overlay => !overlay.isObject then
    .error <| invalid "vmm.config_overlay" "VMM config overlay must be a JSON object"
      "set vmm.config_overlay to a JSON object or remove it"
  else return ()

end Vmm

/-! ## Specs -/

section Spec

variable (context : ValidationContext)

/-- What is checked when the paths and the image have their final form. -/
def validateResolved (spec : MachineSpec) : Res (List SpecWarning) := do
  let warnings ← validateCapacity context spec
  validateUser spec.user
  validateNetwork context spec
  validateMounts context spec
  validateCloudInit context spec
  validateVmm context spec
  return warnings

def validateMachineSpecWithImageBase (imageBaseDir : OsString) (spec : MachineSpec) : Res (MachineSpec × List SpecWarning) := do
  let spec ← resolveSpecPaths context spec
  let arch ← validateArch context spec
  let image ← validateImage context arch imageBaseDir spec.image
  let spec := { spec with image }
  let warnings ← validateResolved context spec
  return (spec, warnings)

/-- `validate_machine_spec`, which leaves the spec in its canonical form. -/
def validateMachineSpec (spec : MachineSpec) : Res (MachineSpec × List SpecWarning) :=
  validateMachineSpecWithImageBase context context.machineDir spec

end Spec

end Firestone.Validation
