import Firestone.Error
import Firestone.Lib.Json

/-!
# The VmConfig of a machine

`canonical_vm_config` renders the Cloud Hypervisor configuration of a machine, merges the user's overlay into it and
refuses an overlay that changes a field Firestone owns.

* `baseVmConfig` — the typed configuration, as the JSON value it serializes to.
* `applyMergePatch` — the overlay. `lookup_mergeMembers` says what it does to each member.
* `requiredSubset` — what the check of the merged value guarantees (`requiredSubset_obj`).

Objects are in key order throughout, so `sort_json` changes nothing. Paths are UTF-8 text; sizes and counts are natural
numbers.
-/

namespace Firestone.Vmm

open Firestone.Lib

/-! ## Inputs -/

/-- What `resolve_payload` returns: it reads the firmware policy, the image kind and the installed artifacts. -/
structure PayloadConfig where
  firmware : Option String
  kernel : Option String
  cmdline : Option String
  deriving DecidableEq, Repr

inductive NetworkPlan
  | none
  | passt (mac socket : String)
  | tap (name mac : String) (ip mask : Option String)
  deriving DecidableEq, Repr

structure VirtiofsPlan where
  tag : String
  socket : String
  deriving DecidableEq, Repr

/-- The files and sockets of the machine that its configuration names. -/
structure VmPaths where
  disk : String
  seedImage : String
  configImage : String
  vsockSocket : String
  consoleLog : String
  deriving DecidableEq, Repr

/-- The fields of the machine spec that the configuration is rendered from. -/
structure VmSpec where
  cpus : Nat
  cpusMax : Option Nat
  memory : Nat
  memoryMax : Option Nat
  configOverlay : Option Json
  deriving DecidableEq, Repr

structure VmConfigInput where
  name : String
  spec : VmSpec
  cid : Nat
  network : NetworkPlan
  filesystems : List VirtiofsPlan
  oci : Bool
  paths : VmPaths
  payload : Res PayloadConfig

/-! ## The base configuration -/

def uint (n : Nat) : Json := .num (.posInt n)

def virtiofsNumQueues : Nat := 1

def virtiofsQueueSize : Nat := 1024

/-- `NetConfig::from_plan`. -/
def netConfig : NetworkPlan → Option Json
  | .none => Option.none
  | .passt mac socket => some <| .arr [.obj <| Json.fields [
      ("mac", some (.str mac)), ("vhost_user", some (.bool true)), ("vhost_socket", some (.str socket)),
      ("vhost_mode", some (.str "Client"))]]
  | .tap name mac ip mask => some <| .arr [.obj <| Json.fields [
      ("tap", some (.str name)), ("mac", some (.str mac)), ("ip", ip.map .str), ("mask", mask.map .str)]]

/-- `FsConfig::from_plan`. -/
def fsConfig (plan : VirtiofsPlan) : Json :=
  .obj <| Json.fields [("tag", some (.str plan.tag)), ("socket", some (.str plan.socket)),
    ("num_queues", some (uint virtiofsNumQueues)), ("queue_size", some (uint virtiofsQueueSize))]

def payloadConfig (p : PayloadConfig) : Json :=
  .obj <| Json.fields [("firmware", p.firmware.map .str), ("kernel", p.kernel.map .str), ("cmdline", p.cmdline.map .str)]

def cpusConfig (spec : VmSpec) : Json :=
  .obj <| Json.fields [("boot_vcpus", some (uint spec.cpus)), ("max_vcpus", some (uint (spec.cpusMax.getD spec.cpus)))]

/-- Memory with its hotplug headroom, which is declared only for a machine with `memory_max`. -/
def memoryConfig (spec : VmSpec) : Json :=
  .obj <| Json.fields [("size", some (uint spec.memory)), ("shared", some (.bool true)),
    ("hotplug_size", spec.memoryMax.map fun memoryMax => uint (memoryMax - spec.memory))]

def disksConfig (i : VmConfigInput) : Json :=
  .arr [
    .obj <| Json.fields [("path", some (.str i.paths.disk)), ("readonly", none), ("image_type", some (.str "Qcow2")),
      ("backing_files", some (.bool true))],
    .obj <| Json.fields [("path", some (.str (if i.oci then i.paths.configImage else i.paths.seedImage))),
      ("readonly", some (.bool true)), ("image_type", some (.str "Raw")), ("backing_files", none)]]

/-- The members of the configuration, in the order they are declared. -/
def baseFields (i : VmConfigInput) (payload : PayloadConfig) : List (String × Option Json) := [
  ("cpus", some (cpusConfig i.spec)),
  ("memory", some (memoryConfig i.spec)),
  ("payload", some (payloadConfig payload)),
  ("disks", some (disksConfig i)),
  ("net", netConfig i.network),
  ("fs", if i.filesystems.isEmpty then none else some (.arr (i.filesystems.map fsConfig))),
  ("vsock", some (.obj (Json.fields [("cid", some (uint i.cid)), ("socket", some (.str i.paths.vsockSocket))]))),
  ("serial", some (.obj (Json.fields [("mode", some (.str "File")), ("file", some (.str i.paths.consoleLog))]))),
  ("console", some (.obj (Json.fields [("mode", some (.str "Pty"))]))),
  ("rng", some (.obj (Json.fields [("src", some (.str "/dev/urandom"))])))]

def cidError (cid : Nat) : FirestoneError :=
  (FirestoneError.new .invalidSpec ("machine state must use fixed vsock CID 3, found " ++ toString cid)).withHint
    "persist vsock CID 3 before building VmConfig"

def baseVmConfig (i : VmConfigInput) (payload : PayloadConfig) : Res (List (String × Json)) :=
  if i.cid ≠ 3 then .error (cidError i.cid) else .ok (Json.fields (baseFields i payload))

/-! ## The overlay -/

mutual

/-- `apply_merge_patch`: members of a patch object are merged one by one, a null member deletes, and any other patch
replaces the target. -/
@[grind =] def applyMergePatch (target : Json) : Json → Json
  | .obj patch => .obj (mergeMembers target.members patch)
  | patch => patch

def mergeMembers (target : List (String × Json)) : List (String × Json) → List (String × Json)
  | [] => target
  | (key, .null) :: rest => mergeMembers (eraseMember key target) rest
  | (key, value) :: rest =>
    mergeMembers (insertMember key (applyMergePatch ((target.lookup key).getD .null) value) target) rest

end

/-! ## Required fields -/

def requiredOverlayError (path : String) : FirestoneError :=
  (FirestoneError.new .invalidSpec ("vmm.config_overlay changes required VmConfig field `" ++ path ++ "`")).withHint
    "remove that overlay change; Firestone owns required boot and sidecar fields"

def objectPath (parent key : String) : String := if parent = "" then key else parent ++ "." ++ key

def displayPath (path : String) : String := if path = "" then "<root>" else path

mutual

/-- Every leaf of `required` is in `candidate`, at the same place and unchanged; the error is the path of the first one
that is not. -/
@[grind =] def requiredSubset (required candidate : Json) (path : String) : Except String Unit :=
  match required with
  | .obj members =>
    match candidate with
    | .obj found => requiredMembers members found path
    | _ => .error (displayPath path)
  | .arr items =>
    match candidate with
    | .arr found => if found.length < items.length then .error (displayPath path) else requiredItems items found path 0
    | _ => .error (displayPath path)
  | leaf => if leaf = candidate then .ok () else .error (displayPath path)

def requiredMembers (members found : List (String × Json)) (path : String) : Except String Unit :=
  match members with
  | [] => .ok ()
  | (key, value) :: rest =>
    match found.lookup key with
    | none => .error (objectPath path key)
    | some candidate =>
      match requiredSubset value candidate (objectPath path key) with
      | .error e => .error e
      | .ok () => requiredMembers rest found path

def requiredItems (items found : List Json) (path : String) (index : Nat) : Except String Unit :=
  match items with
  | [] => .ok ()
  | value :: rest =>
    match found with
    | [] => .ok ()
    | candidate :: found =>
      match requiredSubset value candidate (displayPath path ++ "[" ++ toString index ++ "]") with
      | .error e => .error e
      | .ok () => requiredItems rest found path (index + 1)

end

/-- `display_pointer`. -/
def displayPointer (tokens : List Json.Token) : String :=
  tokens.foldl (fun display token => match token with
    | .index n => display ++ "[" ++ toString n ++ "]"
    | .key k => if display = "" then k else display ++ "." ++ k) ""

def requireFalseOrAbsent (candidate : Json) (tokens : List Json.Token) : Res Unit :=
  match candidate.pointer tokens with
  | none | some (.bool false) => .ok ()
  | some _ => .error (requiredOverlayError (displayPointer tokens))

def requireAbsent (candidate : Json) (tokens : List Json.Token) : Res Unit :=
  if (candidate.pointer tokens).isNone then .ok () else .error (requiredOverlayError (displayPointer tokens))

def netField (k : String) : List Json.Token := [.key "net", .index 0, .key k]

def diskField (n : Nat) (k : String) : List Json.Token := [.key "disks", .index n, .key k]

def validateRequiredDefaults (candidate : Json) (network : NetworkPlan) : Res Unit := do
  requireFalseOrAbsent candidate (diskField 0 "readonly")
  requireFalseOrAbsent candidate (diskField 0 "vhost_user")
  requireFalseOrAbsent candidate (diskField 1 "backing_files")
  requireFalseOrAbsent candidate (diskField 1 "vhost_user")
  match network with
  | .passt _ _ => do
    requireAbsent candidate (netField "tap")
    requireAbsent candidate (netField "ip")
    requireAbsent candidate (netField "mask")
  | .tap _ _ _ _ => do
    requireFalseOrAbsent candidate (netField "vhost_user")
    requireAbsent candidate (netField "ip")
    requireAbsent candidate (netField "mask")
    requireAbsent candidate (netField "vhost_socket")
  | .none => .ok ()

/-- The boot mode is not the overlay's to change. -/
def validatePayload (base candidate : List (String × Json)) : Res Unit :=
  match candidate.lookup "payload", base.lookup "payload" with
  | some (.obj payload), some (.obj required) =>
    if (required.lookup "kernel").isSome ∧ (payload.lookup "firmware").isSome then
      .error (requiredOverlayError "payload.firmware")
    else if (required.lookup "firmware").isSome ∧ (payload.lookup "kernel").isSome then
      .error (requiredOverlayError "payload.kernel")
    else if (required.lookup "cmdline").isNone ∧ (payload.lookup "cmdline").isSome then
      .error (requiredOverlayError "payload.cmdline")
    else .ok ()
  | _, _ => .ok ()

def requireSubset (base candidate : List (String × Json)) : Res Unit :=
  match requiredSubset (.obj base) (.obj candidate) "" with
  | .error path => .error (requiredOverlayError path)
  | .ok () => .ok ()

/-- `validate_required_invariants`. -/
def validateRequiredInvariants (base candidate : List (String × Json)) (i : VmConfigInput) : Res Unit := do
  requireSubset base candidate
  validateRequiredDefaults (.obj candidate) i.network
  if i.network = .none ∧ (candidate.lookup "net").isSome then .error (requiredOverlayError "net")
  else if i.filesystems.isEmpty ∧ (candidate.lookup "fs").isSome then .error (requiredOverlayError "fs")
  else validatePayload base candidate

def overlayShapeError : FirestoneError :=
  (FirestoneError.new .invalidSpec "vmm.config_overlay must be a JSON object").withHint
    "use an RFC 7396 object merge patch"

/-- The members of an overlay. -/
def overlayMembers : Option Json → Res (List (String × Json))
  | none => .ok []
  | some (.obj patch) => .ok patch
  | some _ => .error overlayShapeError

/-- `canonical_vm_config`: the members of the value whose bytes are published. -/
def canonicalVmConfig (i : VmConfigInput) : Res (List (String × Json)) := do
  let payload ← i.payload
  let base ← baseVmConfig i payload
  let patch ← overlayMembers i.spec.configOverlay
  let merged := mergeMembers base patch
  validateRequiredInvariants base merged i
  .ok merged

/-! ## What the overlay does to a member -/

/-- The effect of a patch on the member at `k`. -/
@[grind =] def patchAt (k : String) : List (String × Json) → Option Json → Option Json
  | [], x => x
  | (key, value) :: rest, x =>
    if key = k then
      patchAt k rest (if value = .null then none else some (applyMergePatch (x.getD .null) value))
    else patchAt k rest x

theorem mergeMembers_cons (target : List (String × Json)) (key : String) (value : Json) (rest : List (String × Json)) :
    mergeMembers target ((key, value) :: rest) = mergeMembers (if value = .null then eraseMember key target
      else insertMember key (applyMergePatch ((target.lookup key).getD .null) value) target) rest := by
  cases value <;> rfl

/-- A patch acts on each member by itself. -/
theorem lookup_mergeMembers (k : String) :
    ∀ (patch target : List (String × Json)), (mergeMembers target patch).lookup k = patchAt k patch (target.lookup k) := by
  intro patch
  induction patch with
  | nil => exact fun _ => rfl
  | cons member rest ih =>
    obtain ⟨key, value⟩ := member
    intro target
    rw [mergeMembers_cons, ih, patchAt]
    by_cases hk : key = k
    · subst hk
      rw [if_pos rfl]
      split
      · rw [lookup_eraseMember_self]
      · rw [lookup_insertMember_self]
    · have hne : k ≠ key := fun h => hk h.symm
      rw [if_neg hk]
      split
      · rw [lookup_eraseMember_ne hne]
      · rw [lookup_insertMember_ne hne]

theorem mergeMembers_sorted :
    ∀ {patch target : List (String × Json)}, MembersSorted target → MembersSorted (mergeMembers target patch)
  | [], _, h => h
  | (key, value) :: rest, target, h => by
    rw [mergeMembers_cons]
    split
    · exact mergeMembers_sorted h.eraseMember
    · exact mergeMembers_sorted h.insertMember

/-- Two members that agree at a key of theirs still do after a patch. -/
theorem memberAt_patchAt {j k : String} : ∀ (patch : List (String × Json)) {x y : Option Json},
    Json.memberAt j x = Json.memberAt j y → Json.memberAt j (patchAt k patch x) = Json.memberAt j (patchAt k patch y)
  | [], _, _, h => h
  | (key, value) :: rest, x, y, h => by
    rw [patchAt, patchAt]
    split
    · refine memberAt_patchAt rest ?_
      cases value with
      | obj q =>
        -- An absent member and one that is no object are both patched as an empty object.
        have hm : ∀ z : Option Json, (z.getD .null).members.lookup j = Json.memberAt j z := by
          intro z
          cases z <;> rfl
        have hp : ∀ z : Option Json,
            Json.memberAt j (some (applyMergePatch (z.getD .null) (.obj q))) = patchAt j q (Json.memberAt j z) := by
          intro z
          rw [← hm z, ← lookup_mergeMembers]
          rfl
        simp only [reduceCtorEq, if_false, hp, h]
      | _ => rfl
    · exact memberAt_patchAt rest h

/-- The members of a patched object are in order. -/
theorem patchAt_sorted {k : String} : ∀ (patch : List (String × Json)) {x : Option Json},
    MembersSorted (x.getD .null).members → MembersSorted ((patchAt k patch x).getD .null).members
  | [], _, h => h
  | (key, value) :: rest, x, h => by
    rw [patchAt]
    split
    · refine patchAt_sorted rest ?_
      cases value with
      | obj q => exact mergeMembers_sorted h
      | _ => exact List.Pairwise.nil
    · exact patchAt_sorted rest h

/-! ## What the check guarantees -/

section required

variable {members found : List (String × Json)} {path key : String} {value : Json}

theorem requiredMembers_mem : ∀ {members : List (String × Json)}, requiredMembers members found path = .ok () →
    (key, value) ∈ members → ∃ c, found.lookup key = some c ∧ requiredSubset value c (objectPath path key) = .ok ()
  | (key', value') :: rest, h, hm => by
    rw [requiredMembers] at h
    split at h
    · cases h
    · rename_i c hc
      split at h
      · cases h
      · rename_i hv
        rcases List.mem_cons.mp hm with heq | hm
        · cases heq
          exact ⟨c, hc, hv⟩
        · exact requiredMembers_mem h hm

/-- A required object is found as an object that has each of its members. -/
theorem requiredSubset_obj {candidate : Json} (h : requiredSubset (.obj members) candidate path = .ok ()) :
    ∃ found, candidate = .obj found ∧ requiredMembers members found path = .ok () := by
  cases candidate with
  | obj found => exact ⟨found, rfl, by simpa [requiredSubset] using h⟩
  | _ => simp [requiredSubset] at h

theorem requiredSubset_uint {n : Nat} {candidate : Json} (h : requiredSubset (uint n) candidate path = .ok ()) :
    candidate = uint n := by
  simp only [uint, requiredSubset] at h
  split at h
  · rename_i heq
    exact heq.symm
  · cases h

end required

end Firestone.Vmm
