import Firestone.Paths
import Firestone.Spec.Reload

/-!
# Rendering cloud-init

When a machine starts, its spec is rendered into the documents of the seed image: the user's own part, the part that
Firestone renders from its template, and the network configuration. The files are read again, with checks of their own.

* `renderCloudInit` — the documents.
* `UserFiles` — what validation has found out about the inputs of cloud-init.
* `readUserPublicKeys_cases` — the key files are read when they are small enough together.
* `renderCloudInit_cases` — nothing else of the user stops the renderer.
* `validated_renders` — a validated spec is rendered when its key files are small enough together.

Validation bounds each key file and the renderer also bounds their sum. SHA-256 is a parameter.
-/

namespace Firestone.Boot

open Firestone.Lib Firestone.Validation
open Firestone.Image.Sources (resolveInputPath)

def maxRenderedSshKeysBytes : Nat := 256 * 1024

/-- What the renderer reads from, and the functions of other crates that it uses. -/
structure RenderContext where
  system : System
  homeDir : Option OsString
  machinesDir : OsString
  fromOpenssh : String → Option PublicKey
  sha256 : Bytes → Bytes

structure ParsedPublicKey where
  rendered : String
  parsed : PublicKey
  deriving DecidableEq, Repr

structure TemplateMount where
  tag : String
  guest : String
  readonly : Bool
  deriving DecidableEq, Repr

structure RenderedCloudInit where
  instanceId : String
  metaData : Bytes
  userData : Bytes
  networkConfig : Option Bytes
  deriving DecidableEq

/-! ## Files of the user -/

def readBoundedUserFile (system : System) (path : OsString) (key : String) (limit : Nat) (limitLabel hint : String) :
    Res Bytes :=
  let shown := "'" ++ path.display ++ "'"
  match system.openFile path with
  | .error _ => .error ((FirestoneError.new .invalidSpec ("cannot open " ++ key ++ " file " ++ shown)).withHint hint)
  | .ok file =>
    match file.isFile with
    | .error _ => .error ((FirestoneError.new .invalidSpec ("cannot inspect " ++ key ++ " file " ++ shown)).withHint hint)
    | .ok false =>
      .error ((FirestoneError.new .invalidSpec (key ++ " path " ++ shown ++ " is not a regular file")).withHint hint)
    | .ok true =>
      match readBounded file limit with
      | .ok contents => .ok contents
      | .error .limitExceeded =>
        .error ((FirestoneError.new .invalidSpec (key ++ " file " ++ shown ++ " exceeds " ++ limitLabel)).withHint hint)
      | .error (.io _) =>
        .error ((FirestoneError.new .invalidSpec ("cannot read " ++ key ++ " file " ++ shown)).withHint hint)

def readUserDataFile (system : System) (path : OsString) : Res UserDataPart := do
  let contents ← readBoundedUserFile system path "cloud_init.user_data" maxUserDataBytes "1 MiB"
    "correct the path or reduce the user-data file to 1 MiB or less"
  parseUserData contents ("file '" ++ path.display ++ "'")

def readNetworkConfigFile (system : System) (path : OsString) : Res Bytes := do
  let contents ← readBoundedUserFile system path "cloud_init.network_config" maxNetworkConfigBytes "1 MiB"
    "correct the path or reduce the network-config file to 1 MiB or less"
  if isUtf8 contents then return contents
  else
    throw <| (FirestoneError.new .invalidSpec
      ("cloud_init.network_config file '" ++ path.display ++ "' is not UTF-8")).withHint
      "save network-config as UTF-8 YAML"

/-! ## Keys -/

section Keys

variable (fromOpenssh : String → Option PublicKey)

def parsePublicKeyLine (path : OsString) (description : String) (kind : ErrorKind) (line : String) : Res ParsedPublicKey :=
  match fromOpenssh line with
  | some parsed => .ok ⟨line, parsed⟩
  | none => .error ((FirestoneError.new kind (description ++ " at " ++ path.display ++ " contains an invalid key")).withHint
      "replace the invalid line with an OpenSSH public key")

def parsePublicKeys (contents : Bytes) (path : OsString) (description : String) (kind : ErrorKind) :
    Res (List ParsedPublicKey) :=
  match fromUtf8 contents with
  | none => .error ((FirestoneError.new kind (description ++ " at " ++ path.display ++ " is not UTF-8")).withHint
      "replace it with an OpenSSH public-key file")
  | some text => do
    let keys ← (keyLines text).mapM (parsePublicKeyLine fromOpenssh path description kind)
    if keys = [] then
      throw <| (FirestoneError.new kind (description ++ " at " ++ path.display ++ " contains no keys")).withHint
        "add at least one OpenSSH public key"
    else return keys

def invalidSuppliedFirestoneKey : FirestoneError :=
  (FirestoneError.new .invalidSpec
    "supplied Firestone SSH public key must contain exactly one valid OpenSSH key").withHint
    "supply one OpenSSH public-key line without surrounding content"

def validateSuppliedFirestonePublicKey (value : String) : Res ParsedPublicKey :=
  let rendered := trim value
  if rendered = "" ∨ (textLines rendered).length ≠ 1 ∨ rendered.toList.head? = some '#' then
    .error invalidSuppliedFirestoneKey
  else match fromOpenssh rendered with
    | some parsed => .ok ⟨rendered, parsed⟩
    | none => .error invalidSuppliedFirestoneKey

/-- One inline key, with its index. -/
def parseInlinePublicKey (entry : String × Nat) : Res ParsedPublicKey :=
  let field := "cloud_init.ssh_authorized_keys[" ++ toString entry.2 ++ "]"
  let line := trim entry.1
  if line = "" ∨ line.toList.head? = some '#' ∨ (textLines line).length ≠ 1 then
    .error { kind := .invalidSpec
             message := field ++ " is not a single OpenSSH public-key line"
             hint := some "supply exactly one OpenSSH public key per entry"
             field := some field }
  else match fromOpenssh line with
    | some parsed => .ok ⟨line, parsed⟩
    | none => .error { kind := .invalidSpec
                       message := field ++ " is not a valid OpenSSH public key"
                       hint := some "replace the entry with an OpenSSH public key"
                       field := some field }

def parseInlinePublicKeys (keys : List String) : Res (List ParsedPublicKey) :=
  keys.zipIdx.mapM (parseInlinePublicKey fromOpenssh)

end Keys

def exceededKeys : FirestoneError :=
  (FirestoneError.new .invalidSpec "cloud_init.ssh_keys contents exceed 256 KiB in total").withHint
    "reduce the configured public-key files to 256 KiB in total"

/-- The loop over the key files, with the index of the next one and the bytes read so far. -/
def readUserPublicKeys (context : RenderContext) (machineDir : OsString) : Nat → Nat → List OsString →
    Res (List ParsedPublicKey)
  | _, _, [] => .ok []
  | index, totalBytes, configuredPath :: rest => do
    let key := "cloud_init.ssh_keys[" ++ toString index ++ "]"
    let path ← resolveInputPath context.homeDir configuredPath machineDir key
    let contents ← readBoundedUserFile context.system path key maxSshKeyFileBytes "64 KiB"
      "correct the path or provide an OpenSSH public-key file of 64 KiB or less"
    if 2 ^ 64 ≤ totalBytes + contents.length then
      .error <| (FirestoneError.new .invalidSpec "cloud_init.ssh_keys contents exceed the supported size").withHint
        "reduce the configured public-key files to 256 KiB in total"
    else if maxRenderedSshKeysBytes < totalBytes + contents.length then .error exceededKeys
    else do
      let keys ← parsePublicKeys context.fromOpenssh contents path "cloud_init.ssh_keys entry" .invalidSpec
      let others ← readUserPublicKeys context machineDir (index + 1) (totalBytes + contents.length) rest
      return keys ++ others

/-- The keys of the user that are neither Firestone's own nor given before. -/
def deduplicateUserKeys (firestoneKey : PublicKey) (keys : List ParsedPublicKey) : List String :=
  let unique := keys.foldl (fun unique key =>
    if key.parsed = firestoneKey ∨ unique.any fun existing => existing.parsed = key.parsed then unique
    else unique ++ [key]) ([] : List ParsedPublicKey)
  unique.map ParsedPublicKey.rendered

/-! ## The part of Firestone -/

/-- A character in a JSON string. -/
def jsonChar (c : Char) : List Char :=
  match c with
  | '"' => ['\\', '"']
  | '\\' => ['\\', '\\']
  | '\x08' => ['\\', 'b']
  | '\x0c' => ['\\', 'f']
  | '\n' => ['\\', 'n']
  | '\r' => ['\\', 'r']
  | '\t' => ['\\', 't']
  | c => if c.toNat < 0x20 then ['\\', 'u', '0', '0'] ++ hexByte (UInt8.ofNat c.toNat) else [c]

def jsonString (value : String) : String := String.ofList ('"' :: value.toList.flatMap jsonChar ++ ['"'])

/-- The lines of `cloud-init.yaml`, which the renderer of templates joins. -/
def templateLines (machine user firestonePubkey : String) (userKeys : List String) (mounts : List TemplateMount)
    (sshdPath : String) (chpasswdEntry : Option String) (sshPwauth : Bool) : List String :=
  [ "#cloud-config"
  , "merge_how: \"list(append)+dict(recurse_dict,recurse_list,no_replace)+str()\""
  , "hostname: " ++ machine
  , "disable_root: false"
  , "ssh_pwauth: " ++ if sshPwauth then "true" else "false" ] ++
  (match chpasswdEntry with
    | some entry => ["chpasswd:", "  expire: false", "  list:", "    - " ++ entry]
    | none => []) ++
  ["ssh_authorized_keys:", "  - " ++ firestonePubkey] ++ userKeys.map ("  - " ++ ·) ++
  [ "users:", "  - default", "  - name: root", "    ssh_authorized_keys:", "      - " ++ firestonePubkey ] ++
  userKeys.map ("      - " ++ ·) ++
  [ "growpart:"
  , "  mode: auto"
  , "  devices: [\"/\"]"
  , "write_files:"
  , "  - path: /etc/systemd/system/firestone-sshd.socket"
  , "    permissions: \"0644\""
  , "    content: |"
  , "      [Unit]"
  , "      Description=firestone: sshd over vsock"
  , "      After=sshd-vsock.socket"
  , "      ConditionPathExists=!/run/systemd/generator/sshd-vsock.socket"
  , "      [Socket]"
  , "      ListenStream=vsock::22"
  , "      Accept=yes"
  , "      [Install]"
  , "      WantedBy=sockets.target"
  , "  - path: /etc/systemd/system/firestone-sshd@.service"
  , "    permissions: \"0644\""
  , "    content: |"
  , "      [Unit]"
  , "      Description=firestone: sshd over vsock (%i)"
  , "      After=sshd-keygen.service ssh.service"
  , "      [Service]"
  , "      RuntimeDirectory=sshd"
  , "      RuntimeDirectoryMode=0755"
  , "      RuntimeDirectoryPreserve=yes"
  , "      ExecStart=" ++ sshdPath ++ " -i"
  , "      StandardInput=socket"
  , "      StandardError=journal"
  , "  - path: /etc/udev/rules.d/80-firestone-hotplug-cpu.rules"
  , "    permissions: \"0644\""
  , "    content: |"
  , "      ACTION==\"add\", SUBSYSTEM==\"cpu\", ATTR\x7bonline\x7d=\"1\""
  , "  - path: /etc/systemd/system/serial-getty@hvc0.service.d/firestone-autologin.conf"
  , "    permissions: \"0644\""
  , "    content: |"
  , "      [Service]"
  , "      ExecStart="
  , "      ExecStart=-/sbin/agetty --autologin " ++ user ++ " --noclear %I $TERM" ] ++
  (if mounts = [] then []
    else "mounts:" :: mounts.map fun mount =>
      "  - [" ++ mount.tag ++ ", " ++ mount.guest ++ ", \"virtiofs\", \"" ++
        (if mount.readonly then "ro" else "defaults") ++ "\", \"0\", \"0\"]") ++
  [ "runcmd:"
  , "  - udevadm control --reload"
  , "  - systemctl daemon-reload"
  , "  - systemctl enable --now firestone-sshd.socket"
  , "  - systemctl is-active --quiet sshd-vsock.socket || systemctl is-active --quiet firestone-sshd.socket"
  , "  - systemctl enable serial-getty@hvc0.service"
  , "  - systemctl restart serial-getty@hvc0.service" ]

/-- The part of Firestone. Every value but the user and the daemon's path is quoted. -/
def renderFirestonePart (machine user firestonePubkey : String) (userKeys : List String) (mounts : List TemplateMount)
    (sshdPath : String) (password : Option String) (sshPwauth : Bool) : Bytes :=
  let chpasswdEntry := password.map fun password => jsonString (user ++ ":" ++ password)
  bytes ("\n".intercalate (templateLines (jsonString machine) user (jsonString firestonePubkey)
    (userKeys.map jsonString) mounts sshdPath chpasswdEntry sshPwauth) ++ "\n")

def templateMount (mount : Vmm.Virtiofs.MountSpec × Nat) : Res TemplateMount :=
  match mount.1.guest.toStr with
  | some guest => .ok ⟨jsonString (mount.1.effectiveTag mount.2), jsonString guest, mount.1.readonly⟩
  | none => .error <| (FirestoneError.new .invalidSpec
      ("mount[" ++ toString mount.2 ++ "].guest '" ++ mount.1.guest.display ++ "' is not UTF-8")).withHint
      "use a UTF-8 guest mount path"

def renderTemplateMounts (spec : Validation.MachineSpec) : Res (List TemplateMount) := spec.mounts.zipIdx.mapM templateMount

/-! ## The documents -/

section Documents

variable (context : RenderContext)

def u64ToBeBytes (n : Nat) : Bytes := (List.range 8).reverse.map fun i => UInt8.ofNat (n / 256 ^ i)

def instanceId (machine : String) (userData : Bytes) (networkConfig : Option Bytes) : String :=
  let hashed := match networkConfig with
    | some networkConfig => bytes "firestone-instance-v1\x00" ++ u64ToBeBytes userData.length ++ userData ++
        u64ToBeBytes networkConfig.length ++ networkConfig
    | none => userData
  "iid-" ++ machine ++ "-" ++ hexDigest ((context.sha256 hashed).take 6)

def renderCloudInitBytes (machine : String) (spec : Validation.MachineSpec) (firestonePubkey sshdPath : String)
    (userData : Option UserDataPart) (networkConfig : Option Bytes) (userKeys : List ParsedPublicKey) :
    Res RenderedCloudInit := do
  let firestonePart ← if spec.cloudInit.provisioning then do
      let firestoneKey ← validateSuppliedFirestonePublicKey context.fromOpenssh firestonePubkey
      let mounts ← renderTemplateMounts spec
      pure (some (renderFirestonePart machine spec.user firestoneKey.rendered
        (deduplicateUserKeys firestoneKey.parsed userKeys) mounts sshdPath spec.cloudInit.password
        spec.cloudInit.sshPwauth))
    else pure none
  let userData := renderMultipart userData firestonePart
  let id := instanceId context machine userData networkConfig
  return ⟨id, bytes ("instance-id: " ++ jsonString id ++ "\nlocal-hostname: " ++ jsonString machine ++ "\n"), userData,
    networkConfig⟩

/-- `Paths::machine_dir`, below the directory of all machines. -/
def machineDirectory (machine : String) : Res OsString :=
  if oneComponent machine then .ok (joinPath context.machinesDir (.ofString machine))
  else .error ((FirestoneError.new .invalidSpec
    ("machine name must be one non-empty path component: " ++ debugQuote machine)).withHint
    "remove path separators, '.' components, and control characters")

/-- The user's own part, which is a file or inline. -/
def readUserData (machineDir : OsString) (cloudInit : Validation.CloudInitSpec) : Res (Option UserDataPart) :=
  match cloudInit.userData, cloudInit.userDataInline with
  | some _, some _ => .error <| invalid "cloud_init.user_data_inline"
      "'cloud_init.user_data' and 'cloud_init.user_data_inline' are both set"
      "keep one user part: clear 'cloud_init.user_data' or 'cloud_init.user_data_inline'"
  | some path, none => do
    let path ← resolveInputPath context.homeDir path machineDir "cloud_init.user_data"
    let part ← readUserDataFile context.system path
    return some part
  | none, some text => do
    let part ← readInlineUserData text
    return some part
  | none, none => .ok none

def readNetworkConfig (machineDir : OsString) (cloudInit : Validation.CloudInitSpec) : Res (Option Bytes) :=
  cloudInit.networkConfig.mapM fun path => do
    let path ← resolveInputPath context.homeDir path machineDir "cloud_init.network_config"
    readNetworkConfigFile context.system path

/-- The keys are read only for the part of Firestone. -/
def readUserKeys (machineDir : OsString) (cloudInit : Validation.CloudInitSpec) : Res (List ParsedPublicKey) :=
  if cloudInit.provisioning then do
    let keys ← readUserPublicKeys context machineDir 0 0 cloudInit.sshKeys
    let inlineKeys ← parseInlinePublicKeys context.fromOpenssh cloudInit.sshAuthorizedKeys
    return keys ++ inlineKeys
  else .ok []

/-- `render_cloud_init_with_guest_ssh`. -/
def renderCloudInit (machine : String) (spec : Validation.MachineSpec) (firestonePubkey sshdPath : String) :
    Res RenderedCloudInit := do
  let machineDir ← machineDirectory context machine
  validateUser spec.user
  let userData ← readUserData context machineDir spec.cloudInit
  let networkConfig ← readNetworkConfig context machineDir spec.cloudInit
  let userKeys ← readUserKeys context machineDir spec.cloudInit
  renderCloudInitBytes context machine spec firestonePubkey sshdPath userData networkConfig userKeys

end Documents

/-! ## What validation has found out -/

theorem readRequiredFile_ok {host : ValidationHost} {key limitLabel hint : String} {path : OsString} {limit : Nat}
    {contents : Bytes} : readRequiredFile host key path limit limitLabel hint = .ok contents ↔
      host.readRegularFile path limit = .ok contents := by
  unfold readRequiredFile
  split
  all_goals
    rename_i hread
    rw [hread]
    simp

/-- Both read the same file in the same way. -/
theorem readBoundedUserFile_ok {system : System} {path : OsString} {key limitLabel hint : String} {limit : Nat}
    {contents : Bytes} : readBoundedUserFile system path key limit limitLabel hint = .ok contents ↔
      readRegularFile system path limit = .ok contents := by
  unfold readBoundedUserFile readRegularFile
  cases system.openFile path with
  | error kind => simp
  | ok file =>
    simp only
    cases file.isFile with
    | error kind => simp
    | ok isFile =>
      cases isFile with
      | false => simp
      | true =>
        simp only
        cases readBounded file limit with
        | ok found => simp
        | error error => cases error <;> simp

/-- The first line says what the user's part is. -/
def KnownKind (contents : Bytes) : Prop :=
  firstLine contents = bytes "#cloud-config" ∨ (bytes "#!").isPrefixOf (firstLine contents) = true

theorem parseUserData_known {contents : Bytes} (hutf8 : isUtf8 contents = true) (hkind : KnownKind contents)
    (sourceLabel : String) : ∃ part, parseUserData contents sourceLabel = .ok part := by
  unfold parseUserData
  rw [if_neg (by simp [hutf8])]
  by_cases hconfig : firstLine contents = bytes "#cloud-config"
  · exact ⟨_, if_pos hconfig⟩
  · rw [if_neg hconfig, if_pos (hkind.resolve_left hconfig)]
    exact ⟨_, rfl⟩

theorem validateInlineUserData_ok {text : String} (h : validateInlineUserData text = .ok ()) :
    ∃ part, readInlineUserData text = .ok part := by
  unfold validateInlineUserData at h
  simp only at h
  split_ifs at h with hlong hkind
  rw [readInlineUserData, if_neg hlong]
  refine parseUserData_known (isUtf8_bytes text) ?_ _
  rwa [not_and_or, not_not, Bool.not_eq_false] at hkind

/-- A file of keys: it is small enough, and every line that is no comment is a key. -/
structure KeyFile (system : System) (fromOpenssh : String → Option PublicKey) (path : OsString) (contents : Bytes) : Prop where
  read : readRegularFile system path maxSshKeyFileBytes = .ok contents
  keys : ∃ text, fromUtf8 contents = some text ∧ (∀ line ∈ keyLines text, (fromOpenssh line).isSome = true) ∧
    keyLines text ≠ []

section Validated

variable {context : ValidationContext} {system : System} (hhost : context.host = realValidationHost system)

include hhost

theorem validateUserDataFile_ok {path : OsString} (h : validateUserDataFile context path = .ok ()) :
    ∃ part, readUserDataFile system path = .ok part := by
  unfold validateUserDataFile at h
  obtain ⟨contents, hread, h⟩ := Res.bind_ok h
  rw [readRequiredFile_ok, hhost] at hread
  split_ifs at h with hutf8 hkind
  rw [Bool.not_eq_true', Bool.not_eq_false] at hutf8
  rw [not_and_or, not_not, Bool.not_eq_false] at hkind
  obtain ⟨part, hpart⟩ := parseUserData_known hutf8 hkind ("file '" ++ path.display ++ "'")
  exact ⟨part, Res.bind_ok_iff.mpr ⟨contents, readBoundedUserFile_ok.mpr hread, hpart⟩⟩

theorem validateNetworkConfigFile_ok {path : OsString} (h : validateNetworkConfigFile context path = .ok ()) :
    ∃ contents, readNetworkConfigFile system path = .ok contents := by
  unfold validateNetworkConfigFile at h
  obtain ⟨contents, hread, h⟩ := Res.bind_ok h
  rw [readRequiredFile_ok, hhost] at hread
  split_ifs at h with hutf8
  rw [Bool.not_eq_true', Bool.not_eq_false] at hutf8
  refine ⟨contents, Res.bind_ok_iff.mpr ⟨contents, readBoundedUserFile_ok.mpr hread, ?_⟩⟩
  rw [if_pos hutf8]
  rfl

theorem validateSshKeyFile_ok {path : OsString × Nat} : validateSshKeyFile context path = .ok () ↔
    ∃ contents, KeyFile system context.fromOpenssh path.1 contents := by
  unfold validateSshKeyFile
  simp only [Res.bind_ok_iff, readRequiredFile_ok, hhost]
  constructor
  · rintro ⟨contents, hread, h⟩
    split at h
    · cases h
    · rename_i text htext
      split_ifs at h with hkeys hnone
      rw [Bool.not_eq_true', Bool.not_eq_false, List.all_eq_true] at hkeys
      exact ⟨contents, hread, text, htext, hkeys, hnone⟩
  · rintro ⟨contents, hread, text, htext, hkeys, hnone⟩
    refine ⟨contents, hread, ?_⟩
    rw [htext]
    simp only
    rw [List.all_eq_true.mpr hkeys, Bool.not_true, if_neg Bool.false_ne_true, if_neg hnone]
    rfl

end Validated

theorem validateInlineAuthorizedKey_ok {context : ValidationContext} {entry : String × Nat}
    (h : validateInlineAuthorizedKey context entry = .ok ()) :
    ∃ key, parseInlinePublicKey context.fromOpenssh entry = .ok key := by
  unfold validateInlineAuthorizedKey at h
  simp only at h
  split at h
  · cases h
  rename_i hblank
  split at h
  · cases h
  rename_i hlines
  split at h
  · cases h
  split at h
  · rename_i parsed hparsed
    refine ⟨⟨trim entry.1, parsed⟩, ?_⟩
    rw [not_or] at hblank
    rw [parseInlinePublicKey, if_neg (by simp [hblank, hlines]), hparsed]
  · cases h

/-! ## The key files -/

/-- The bytes of all key files together. -/
def keyFileBytes (system : System) (paths : List OsString) : Nat :=
  (paths.map fun path => ((readRegularFile system path maxSshKeyFileBytes).toOption.getD []).length).sum

/-- The key files are not read, or are small enough together. -/
def KeysFit (system : System) (provisioning : Bool) (paths : List OsString) : Prop :=
  provisioning = false ∨ keyFileBytes system paths ≤ maxRenderedSshKeysBytes

/-- Files of one size. -/
theorem keyFileBytes_eq {system : System} {paths : List OsString} {n : Nat}
    (h : ∀ path ∈ paths, ∃ contents, readRegularFile system path maxSshKeyFileBytes = .ok contents ∧ contents.length = n) :
    keyFileBytes system paths = paths.length * n := by
  have hmap : paths.map (fun path => ((readRegularFile system path maxSshKeyFileBytes).toOption.getD []).length) =
      paths.map fun _ => n := by
    refine List.map_congr_left fun path hpath => ?_
    obtain ⟨contents, hread, hlength⟩ := h path hpath
    rw [hread]
    exact hlength
  rw [keyFileBytes, hmap, List.map_const', List.sum_replicate_nat]

theorem KeyFile.parse {system : System} {fromOpenssh : String → Option PublicKey} {path : OsString} {contents : Bytes}
    (h : KeyFile system fromOpenssh path contents) (description : String) (kind : ErrorKind) :
    ∃ keys, parsePublicKeys fromOpenssh contents path description kind = .ok keys := by
  obtain ⟨text, htext, hkeys, hne⟩ := h.keys
  have hline : ∀ line ∈ keyLines text, ∃ key, parsePublicKeyLine fromOpenssh path description kind line = .ok key := by
    intro line hline
    obtain ⟨parsed, hparsed⟩ := Option.isSome_iff_exists.mp (hkeys line hline)
    exact ⟨⟨line, parsed⟩, by rw [parsePublicKeyLine, hparsed]⟩
  obtain ⟨keys, hall, hlength⟩ := exists_mapM hline
  have hsome : keys ≠ [] := by
    rintro rfl
    exact hne (List.length_eq_zero_iff.mp hlength.symm)
  refine ⟨keys, ?_⟩
  rw [parsePublicKeys, htext]
  refine Res.bind_ok_iff.mpr ⟨keys, hall, ?_⟩
  rw [if_neg hsome]
  rfl

theorem KeyFile.length_le {system : System} {fromOpenssh : String → Option PublicKey} {path : OsString} {contents : Bytes}
    (h : KeyFile system fromOpenssh path contents) : contents.length ≤ maxSshKeyFileBytes := by
  have hread := h.read
  unfold readRegularFile at hread
  split at hread
  · cases hread
  split at hread
  · cases hread
  · cases hread
  split at hread
  · rename_i hbounded
    cases hread
    exact readBounded_ok hbounded
  · cases hread
  · cases hread

/-- Valid key files are read unless they are too large together. -/
theorem readUserPublicKeys_cases {context : RenderContext} {machineDir : OsString} {paths : List OsString}
    (h : ∀ path ∈ paths, isAbsolute path = true ∧ ∃ contents, KeyFile context.system context.fromOpenssh path contents)
    {index totalBytes : Nat} (htotal : totalBytes ≤ maxRenderedSshKeysBytes) :
    (∃ keys, readUserPublicKeys context machineDir index totalBytes paths = .ok keys) ∧
        totalBytes + keyFileBytes context.system paths ≤ maxRenderedSshKeysBytes ∨
      readUserPublicKeys context machineDir index totalBytes paths = .error exceededKeys ∧
        maxRenderedSshKeysBytes < totalBytes + keyFileBytes context.system paths := by
  induction paths generalizing index totalBytes with
  | nil => exact .inl ⟨⟨[], rfl⟩, htotal⟩
  | cons path rest ih =>
    obtain ⟨⟨habsolute, contents, hfile⟩, hrest⟩ := List.forall_mem_cons.mp h
    have hsum : keyFileBytes context.system (path :: rest) = contents.length + keyFileBytes context.system rest := by
      rw [keyFileBytes, List.map_cons, List.sum_cons, hfile.read]
      rfl
    have hlength := hfile.length_le
    obtain ⟨keys, hkeys⟩ := hfile.parse "cloud_init.ssh_keys entry" .invalidSpec
    have hpath : ∀ key, resolveInputPath context.homeDir path machineDir key = .ok path :=
      fun _ => resolveInputPath_self habsolute
    have hread : ∀ key limitLabel hint, readBoundedUserFile context.system path key maxSshKeyFileBytes limitLabel hint =
        .ok contents := fun _ _ _ => readBoundedUserFile_ok.mpr hfile.read
    have hsmall : ¬ 2 ^ 64 ≤ totalBytes + contents.length := by
      unfold maxRenderedSshKeysBytes at htotal
      unfold maxSshKeyFileBytes at hlength
      omega
    have hstep : readUserPublicKeys context machineDir index totalBytes (path :: rest) =
        if maxRenderedSshKeysBytes < totalBytes + contents.length then .error exceededKeys
        else do
          let others ← readUserPublicKeys context machineDir (index + 1) (totalBytes + contents.length) rest
          return keys ++ others := by
      rw [readUserPublicKeys]
      simp only [hpath]
      change (readBoundedUserFile context.system path _ maxSshKeyFileBytes _ _ >>= _) = _
      rw [hread]
      change (if 2 ^ 64 ≤ totalBytes + contents.length then _ else _) = _
      rw [if_neg hsmall, hkeys]
      rfl
    rw [hstep, hsum, ← Nat.add_assoc]
    by_cases hlimit : maxRenderedSshKeysBytes < totalBytes + contents.length
    · rw [if_pos hlimit]
      exact .inr ⟨rfl, by omega⟩
    · rw [if_neg hlimit]
      rcases ih hrest (Nat.le_of_not_lt hlimit) with ⟨⟨others, hothers⟩, hle⟩ | ⟨herror, hlt⟩
      · exact .inl ⟨⟨keys ++ others, Res.bind_ok_iff.mpr ⟨others, hothers, rfl⟩⟩, hle⟩
      · rw [herror]
        exact .inr ⟨rfl, hlt⟩

/-! ## Validated specs -/

/-- What validation has found out about the inputs of cloud-init. -/
structure UserFiles (system : System) (fromOpenssh : String → Option PublicKey) (cloudInit : Validation.CloudInitSpec) : Prop where
  single : cloudInit.userData = none ∨ cloudInit.userDataInline = none
  userData : ∀ path ∈ cloudInit.userData, ∃ part, readUserDataFile system path = .ok part
  userDataInline : ∀ text ∈ cloudInit.userDataInline, ∃ part, readInlineUserData text = .ok part
  networkConfig : ∀ path ∈ cloudInit.networkConfig, ∃ contents, readNetworkConfigFile system path = .ok contents
  sshKeys : ∀ path ∈ cloudInit.sshKeys, ∃ contents, KeyFile system fromOpenssh path contents
  sshAuthorizedKeys : ∀ entry ∈ cloudInit.sshAuthorizedKeys.zipIdx, ∃ key, parseInlinePublicKey fromOpenssh entry = .ok key

theorem checkSome_ok {α : Type} {check : α → Res Unit} {value : Option α} (h : checkSome check value = .ok ()) :
    ∀ x ∈ value, check x = .ok () := by
  rintro x rfl
  exact h

theorem validateCloudInit_ok {context : ValidationContext} {system : System}
    (hhost : context.host = realValidationHost system) {spec : Validation.MachineSpec}
    (h : validateCloudInit context spec = .ok ()) : UserFiles system context.fromOpenssh spec.cloudInit := by
  unfold validateCloudInit at h
  obtain ⟨_, -, h⟩ := Res.bind_ok h
  split at h
  · cases h
  rename_i hboth
  obtain ⟨_, hinline, h⟩ := Res.bind_ok h
  obtain ⟨_, hauthorized, h⟩ := Res.bind_ok h
  obtain ⟨_, -, h⟩ := Res.bind_ok h
  obtain ⟨_, huserData, h⟩ := Res.bind_ok h
  obtain ⟨_, hnetwork, hkeys⟩ := Res.bind_ok h
  rw [forM_ok_iff] at hauthorized hkeys
  refine ⟨?_, ?_, ?_, ?_, ?_, ?_⟩
  · rwa [not_and_or, Option.not_isSome_iff_eq_none, Option.not_isSome_iff_eq_none] at hboth
  · exact fun path hpath => validateUserDataFile_ok hhost (checkSome_ok huserData path hpath)
  · exact fun text htext => validateInlineUserData_ok (checkSome_ok hinline text htext)
  · exact fun path hpath => validateNetworkConfigFile_ok hhost (checkSome_ok hnetwork path hpath)
  · intro path hpath
    obtain ⟨index, hindex, rfl⟩ := List.mem_iff_getElem.mp hpath
    exact (validateSshKeyFile_ok hhost).mp (hkeys (_, index) (List.mk_mem_zipIdx_iff_getElem?.mpr (List.getElem?_eq_getElem hindex)))
  · exact fun entry hentry => validateInlineAuthorizedKey_ok (hauthorized entry hentry)

section Render

variable {context : RenderContext} {spec : Validation.MachineSpec}

theorem readUserData_ok (hrooted : Rooted spec) (h : UserFiles context.system context.fromOpenssh spec.cloudInit)
    (machineDir : OsString) : ∃ part, readUserData context machineDir spec.cloudInit = .ok part := by
  unfold readUserData
  cases hpath : spec.cloudInit.userData with
  | none =>
    cases htext : spec.cloudInit.userDataInline with
    | none => exact ⟨none, rfl⟩
    | some text =>
      obtain ⟨part, hpart⟩ := h.userDataInline text htext
      exact ⟨some part, Res.bind_ok_iff.mpr ⟨part, hpart, rfl⟩⟩
  | some path =>
    have hnone : spec.cloudInit.userDataInline = none := h.single.resolve_left (by simp [hpath])
    obtain ⟨part, hpart⟩ := h.userData path hpath
    rw [hnone]
    exact ⟨some part, Res.bind_ok_iff.mpr ⟨path, resolveInputPath_self (hrooted.userData path hpath),
      Res.bind_ok_iff.mpr ⟨part, hpart, rfl⟩⟩⟩

theorem readNetworkConfig_ok (hrooted : Rooted spec) (h : UserFiles context.system context.fromOpenssh spec.cloudInit)
    (machineDir : OsString) : ∃ contents, readNetworkConfig context machineDir spec.cloudInit = .ok contents := by
  unfold readNetworkConfig
  cases hpath : spec.cloudInit.networkConfig with
  | none => exact ⟨none, rfl⟩
  | some path =>
    obtain ⟨contents, hcontents⟩ := h.networkConfig path hpath
    refine ⟨some contents, ?_⟩
    rw [Option.mapM_some, resolveInputPath_self (hrooted.networkConfig path hpath)]
    change (readNetworkConfigFile context.system path >>= fun contents => .ok (some contents)) = _
    rw [hcontents]
    rfl

/-- The keys are read unless the files are too large together. -/
theorem readUserKeys_cases (hrooted : Rooted spec) (h : UserFiles context.system context.fromOpenssh spec.cloudInit)
    (machineDir : OsString) :
    (∃ keys, readUserKeys context machineDir spec.cloudInit = .ok keys) ∧
        KeysFit context.system spec.cloudInit.provisioning spec.cloudInit.sshKeys ∨
      readUserKeys context machineDir spec.cloudInit = .error exceededKeys ∧
        ¬ KeysFit context.system spec.cloudInit.provisioning spec.cloudInit.sshKeys := by
  unfold readUserKeys KeysFit
  cases spec.cloudInit.provisioning with
  | false => exact .inl ⟨⟨[], rfl⟩, .inl rfl⟩
  | true =>
    obtain ⟨inlineKeys, hinline, -⟩ := exists_mapM h.sshAuthorizedKeys
    simp only [Bool.true_eq_false, false_or, if_true]
    have hpaths := fun path hpath => And.intro (hrooted.sshKeys path hpath) (h.sshKeys path hpath)
    rcases readUserPublicKeys_cases hpaths (Nat.zero_le _) with ⟨⟨keys, hread⟩, hle⟩ | ⟨herror, hlt⟩
    · rw [Nat.zero_add] at hle
      refine .inl ⟨⟨keys ++ inlineKeys, ?_⟩, hle⟩
      exact Res.bind_ok_iff.mpr ⟨keys, hread, Res.bind_ok_iff.mpr ⟨inlineKeys, hinline, rfl⟩⟩
    · rw [Nat.zero_add] at hlt
      rw [herror]
      exact .inr ⟨rfl, Nat.not_le.mpr hlt⟩

theorem validateGuestPath_text {path guest : OsString} {index : Nat}
    (h : Vmm.Virtiofs.validateGuestPath path index = .ok guest) : path.toStr ≠ none := by
  unfold Vmm.Virtiofs.validateGuestPath at h
  split at h
  · cases h
  split at h
  · cases h
  obtain ⟨_, hbytes, -⟩ := Res.bind_ok h
  exact Vmm.Virtiofs.validatePathBytes_text hbytes

theorem renderTemplateMounts_ok {shapes : List Vmm.Virtiofs.MountShape}
    (h : Vmm.Virtiofs.mountShapes spec.mounts = .ok shapes) : ∃ mounts, renderTemplateMounts spec = .ok mounts := by
  obtain ⟨-, haccepted, -⟩ := Vmm.Virtiofs.mountShapes_iff.mp h
  have hmount : ∀ mount ∈ spec.mounts.zipIdx, ∃ rendered, templateMount mount = .ok rendered := by
    intro mount hmem
    obtain ⟨guest, hguest⟩ := Option.ne_none_iff_exists'.mp (validateGuestPath_text (haccepted.passes mount hmem).guest)
    rw [templateMount, hguest]
    exact ⟨_, rfl⟩
  obtain ⟨mounts, hmounts, -⟩ := exists_mapM hmount
  exact ⟨mounts, hmounts⟩

/-- The part of Firestone needs only its own key and the mounts. -/
theorem renderCloudInitBytes_ok {machine firestonePubkey sshdPath : String} {mounts : List TemplateMount}
    (hmounts : renderTemplateMounts spec = .ok mounts) (hsupplied : spec.cloudInit.provisioning = true →
      ∃ key, validateSuppliedFirestonePublicKey context.fromOpenssh firestonePubkey = .ok key)
    (userData : Option UserDataPart) (networkConfig : Option Bytes) (userKeys : List ParsedPublicKey) :
    ∃ rendered, renderCloudInitBytes context machine spec firestonePubkey sshdPath userData networkConfig userKeys =
      .ok rendered := by
  unfold renderCloudInitBytes
  cases hprovisioning : spec.cloudInit.provisioning with
  | false => exact ⟨_, rfl⟩
  | true =>
    obtain ⟨key, hkey⟩ := hsupplied hprovisioning
    rw [hkey, hmounts]
    exact ⟨_, rfl⟩

/-- Only the size of the key files may stop the renderer. -/
theorem renderCloudInit_cases {machine firestonePubkey sshdPath : String} {mounts : List TemplateMount}
    (hmachine : oneComponent machine = true) (huser : validateUser spec.user = .ok ()) (hrooted : Rooted spec)
    (hfiles : UserFiles context.system context.fromOpenssh spec.cloudInit) (hmounts : renderTemplateMounts spec = .ok mounts)
    (hsupplied : spec.cloudInit.provisioning = true →
      ∃ key, validateSuppliedFirestonePublicKey context.fromOpenssh firestonePubkey = .ok key) :
    (∃ rendered, renderCloudInit context machine spec firestonePubkey sshdPath = .ok rendered) ∧
        KeysFit context.system spec.cloudInit.provisioning spec.cloudInit.sshKeys ∨
      renderCloudInit context machine spec firestonePubkey sshdPath = .error exceededKeys ∧
        ¬ KeysFit context.system spec.cloudInit.provisioning spec.cloudInit.sshKeys := by
  let dir := joinPath context.machinesDir (.ofString machine)
  have hdir : machineDirectory context machine = .ok dir := if_pos hmachine
  obtain ⟨userData, huserData⟩ := readUserData_ok hrooted hfiles dir
  obtain ⟨networkConfig, hnetworkConfig⟩ := readNetworkConfig_ok hrooted hfiles dir
  have hrender : renderCloudInit context machine spec firestonePubkey sshdPath =
      (readUserKeys context dir spec.cloudInit >>= fun userKeys =>
        renderCloudInitBytes context machine spec firestonePubkey sshdPath userData networkConfig userKeys) := by
    simp only [renderCloudInit, hdir, huser, huserData, hnetworkConfig, bind, Except.bind]
  rw [hrender]
  rcases readUserKeys_cases hrooted hfiles dir with ⟨⟨keys, hkeys⟩, hfit⟩ | ⟨herror, hlarge⟩
  · obtain ⟨rendered, hrendered⟩ := renderCloudInitBytes_ok hmounts hsupplied userData networkConfig keys
    exact .inl ⟨⟨rendered, Res.bind_ok_iff.mpr ⟨keys, hkeys, hrendered⟩⟩, hfit⟩
  · rw [herror]
    exact .inr ⟨rfl, hlarge⟩

end Render

/-! ## A spec that was accepted -/

/-- The key files of a spec, where validation finds them. -/
def keyFiles (context : ValidationContext) (spec : Validation.MachineSpec) : List OsString :=
  (spec.cloudInit.sshKeys.zipIdx.mapM fun path =>
    resolvePath context path.1 ("cloud_init.ssh_keys[" ++ toString path.2 ++ "]")).toOption.getD []

theorem resolveSpecPaths_keys {context : ValidationContext} {spec resolved : Validation.MachineSpec}
    (h : resolveSpecPaths context spec = .ok resolved) : resolved.cloudInit.sshKeys = keyFiles context spec ∧
      resolved.cloudInit.provisioning = spec.cloudInit.provisioning := by
  unfold resolveSpecPaths at h
  obtain ⟨mounts, -, h⟩ := Res.bind_ok h
  obtain ⟨userData, -, h⟩ := Res.bind_ok h
  obtain ⟨networkConfig, -, h⟩ := Res.bind_ok h
  obtain ⟨sshKeys, hsshKeys, h⟩ := Res.bind_ok h
  obtain ⟨binary, -, h⟩ := Res.bind_ok h
  obtain ⟨firmware, -, h⟩ := Res.bind_ok h
  cases h
  refine ⟨?_, rfl⟩
  rw [keyFiles, hsshKeys]
  rfl

/-- A validated spec is rendered unless its key files are too large together. -/
theorem validated_renders {context : ValidationContext} {env : RenderContext}
    (hhost : context.host = realValidationHost env.system) (hparser : context.fromOpenssh = env.fromOpenssh)
    (hdir : isAbsolute context.machineDir = true) {spec result : Validation.MachineSpec} {warnings : List SpecWarning}
    (h : validateMachineSpec context spec = .ok (result, warnings)) {machine firestonePubkey sshdPath : String}
    (hmachine : oneComponent machine = true) (hsupplied : spec.cloudInit.provisioning = true →
      ∃ key, validateSuppliedFirestonePublicKey env.fromOpenssh firestonePubkey = .ok key) :
    (∃ rendered, renderCloudInit env machine result firestonePubkey sshdPath = .ok rendered) ↔
      KeysFit env.system spec.cloudInit.provisioning (keyFiles context spec) := by
  have hrooted := rooted_validateMachineSpec hdir h
  obtain ⟨resolved, arch, image, hresolved, -, -, rfl, hwarnings⟩ := validateMachineSpec_ok.mp h
  obtain ⟨hkeys, hprovisioning⟩ := resolveSpecPaths_keys hresolved
  rw [← hprovisioning] at hsupplied ⊢
  rw [← hkeys]
  unfold validateResolved at hwarnings
  obtain ⟨_, -, hrest⟩ := Res.bind_ok hwarnings
  obtain ⟨_, huser, hrest⟩ := Res.bind_ok hrest
  obtain ⟨_, -, hrest⟩ := Res.bind_ok hrest
  obtain ⟨_, hvalid, hrest⟩ := Res.bind_ok hrest
  obtain ⟨_, hcloudInit, -⟩ := Res.bind_ok hrest
  obtain ⟨shapes, hshapes, -⟩ := Res.bind_ok hvalid
  obtain ⟨mounts, hmounts⟩ := renderTemplateMounts_ok hshapes
  have hfiles := validateCloudInit_ok hhost hcloudInit
  rw [hparser] at hfiles
  rcases renderCloudInit_cases hmachine huser hrooted hfiles hmounts hsupplied with ⟨hok, hfit⟩ | ⟨herror, hlarge⟩
  · exact ⟨fun _ => hfit, fun _ => hok⟩
  · rw [herror]
    refine ⟨?_, fun hfit => absurd hfit hlarge⟩
    rintro ⟨_, hrendered⟩
    cases hrendered

/-! ## Five key files -/

def keyText : String :=
  "ssh-ed25519 AAAAC3NzaC1lZDI1NTE5AAAAIKg0J8YPh7wARkZSlBzFAoJez6gssTQUuPu4Qy3z8T1P test@example"

/-- The key, and 60 KiB of spaces. -/
def paddedKey : String := keyText ++ String.ofList (List.replicate (60 * 1024) ' ')

def keyPaths : List OsString := ["/k/1.pub", "/k/2.pub", "/k/3.pub", "/k/4.pub", "/k/5.pub"].map .ofString

/-- A host with an image and five copies of the key file. -/
def keySystem : System :=
  flatSystem ((.ofString "/k/disk.raw", []) :: keyPaths.map fun path => (path, bytes paddedKey))

def readKeyText (line : String) : Option PublicKey :=
  if line = keyText then
    some ⟨[0xa8, 0x34, 0x27, 0xc6, 0x0f, 0x87, 0xbc, 0x00, 0x46, 0x46, 0x52, 0x94, 0x1c, 0xc5, 0x02, 0x82, 0x5e, 0xcf, 0xa8,
      0x2c, 0xb1, 0x34, 0x14, 0xb8, 0xfb, 0xb8, 0x43, 0x2d, 0xf3, 0xf1, 0x3d, 0x4f]⟩
  else none

def keyContext : ValidationContext where
  host := realValidationHost keySystem
  homeDir := none
  machineDir := .ofString "/m/web"
  catalog := ⟨[]⟩
  parser _ := none
  fromOpenssh := readKeyText

def keyRenderContext : RenderContext where
  system := keySystem
  homeDir := none
  machinesDir := .ofString "/m"
  fromOpenssh := readKeyText
  sha256 _ := List.replicate 32 0

def keySpec : Validation.MachineSpec := { image := ⟨"/k/disk.raw"⟩, cloudInit := { sshKeys := keyPaths } }

theorem keyLines_paddedKey : keyLines paddedKey = [keyText] := by
  have hspaces : ∀ c ∈ (String.ofList (List.replicate (60 * 1024) ' ')).toList, isWhitespace c = true := by
    intro c hc
    rw [String.toList_ofList] at hc
    rw [List.eq_of_mem_replicate hc]
    rfl
  have hlines : textLines paddedKey = [paddedKey] := by
    refine textLines_eq_singleton (fun hempty => ?_) fun hnewline => ?_
    · rw [paddedKey, String.append_eq_empty_iff] at hempty
      exact absurd hempty.1 (by decide)
    · rw [paddedKey, String.toList_append, String.toList_ofList, List.mem_append] at hnewline
      rcases hnewline with hnewline | hnewline
      · exact absurd hnewline (by decide)
      · exact absurd (List.eq_of_mem_replicate hnewline) (by decide)
  rw [keyLines, hlines, List.map_singleton, paddedKey, trim_append hspaces]
  decide

theorem length_paddedKey : (bytes paddedKey).length = 61533 := by
  rw [length_bytes, paddedKey, String.utf8ByteSize_append, utf8ByteSize_spaces]
  decide

theorem paddedKey_keyFile {path : OsString} (hpath : path ∈ keyPaths) :
    KeyFile keySystem readKeyText path (bytes paddedKey) := by
  have hfile : ((.ofString "/k/disk.raw", []) :: keyPaths.map fun path => (path, bytes paddedKey)).lookup path =
      some (bytes paddedKey) := by
    simp only [keyPaths, List.map_cons, List.map_nil, List.mem_cons, List.not_mem_nil, or_false] at hpath
    rcases hpath with rfl | rfl | rfl | rfl | rfl <;> rfl
  refine ⟨flatSystem_readRegularFile hfile (by rw [length_paddedKey]; decide), paddedKey, fromUtf8_bytes paddedKey, ?_, ?_⟩
  · rw [keyLines_paddedKey]
    intro line hline
    rw [List.mem_singleton.mp hline, readKeyText, if_pos rfl]
    rfl
  · rw [keyLines_paddedKey]
    exact List.cons_ne_nil _ _

/-- Together the key files are too large. -/
theorem keyPaths_exceeded : ¬ KeysFit keySystem keySpec.cloudInit.provisioning keySpec.cloudInit.sshKeys := by
  have hbytes : keyFileBytes keySystem keyPaths = 5 * 61533 :=
    keyFileBytes_eq fun path hpath => ⟨_, (paddedKey_keyFile hpath).read, length_paddedKey⟩
  rintro (hprovisioning | hle)
  · cases hprovisioning
  · rw [keySpec, hbytes] at hle
    exact absurd hle (by decide)

/-- Every key file is small enough. -/
theorem keySpec_cloudInit : validateCloudInit keyContext keySpec = .ok () := by
  have hkeys : keySpec.cloudInit.sshKeys.zipIdx.forM (validateSshKeyFile keyContext) = .ok () := by
    refine forM_ok_iff.mpr fun path hpath => (validateSshKeyFile_ok rfl).mpr ⟨bytes paddedKey, ?_⟩
    exact paddedKey_keyFile (List.fst_mem_of_mem_zipIdx hpath)
  refine Res.bind_ok_iff.mpr ⟨(), rfl, ?_⟩
  rw [if_neg (by decide)]
  refine Res.bind_ok_iff.mpr ⟨(), rfl, Res.bind_ok_iff.mpr ⟨(), rfl, Res.bind_ok_iff.mpr ⟨(), rfl, ?_⟩⟩⟩
  exact Res.bind_ok_iff.mpr ⟨(), rfl, Res.bind_ok_iff.mpr ⟨(), rfl, hkeys⟩⟩

theorem keySpec_validated : validateMachineSpec keyContext keySpec = .ok (keySpec, []) := by
  refine validateMachineSpec_ok.mpr ⟨keySpec, .x86_64, keySpec.image, rfl, rfl, rfl, rfl, ?_⟩
  rw [validateResolved, keySpec_cloudInit]
  rfl

theorem keyText_supplied : ∃ key, validateSuppliedFirestonePublicKey readKeyText keyText = .ok key := ⟨_, rfl⟩

theorem validated_renders_keySpec :
    (∃ rendered, renderCloudInit keyRenderContext "web" keySpec keyText "/usr/sbin/sshd" = .ok rendered) ↔
      KeysFit keyRenderContext.system keySpec.cloudInit.provisioning (keyFiles keyContext keySpec) :=
  validated_renders rfl rfl (by decide) keySpec_validated (by decide) fun _ => keyText_supplied

/-- The accepted spec is not rendered: its key files have 300 KiB together. -/
theorem keySpec_exceeded : validateMachineSpec keyContext keySpec = .ok (keySpec, []) ∧
    (∃ key, validateSuppliedFirestonePublicKey readKeyText keyText = .ok key) ∧
    renderCloudInit keyRenderContext "web" keySpec keyText "/usr/sbin/sshd" = .error exceededKeys := by
  refine ⟨keySpec_validated, keyText_supplied, ?_⟩
  have hfiles : UserFiles keyRenderContext.system keyRenderContext.fromOpenssh keySpec.cloudInit :=
    validateCloudInit_ok rfl keySpec_cloudInit
  have hrooted : Rooted keySpec := rooted_validateMachineSpec (by decide) keySpec_validated
  have hmachine : oneComponent "web" = true := by decide
  rcases renderCloudInit_cases hmachine rfl hrooted hfiles rfl fun _ => keyText_supplied with ⟨-, hfit⟩ | ⟨herror, -⟩
  · exact absurd hfit keyPaths_exceeded
  · exact herror

end Firestone.Boot
