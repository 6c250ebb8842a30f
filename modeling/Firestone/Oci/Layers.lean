import Firestone.Error
import Firestone.Lib.Bytes
import Firestone.Lib.PrefixScan

/-!
# Pass one of the layer merge

`build_plan` walks the decoded layers from the lowest to the highest and keeps, in one path map, the member that
survives at every path. Whiteouts, opaque markers and replacements delete from that map as they are met, but only
entries of lower layers (`dropLowerSubtree`); `planHardlinks` then decides how links whose target was shadowed are
emitted.

A layer is given here as the tar reader decodes it: its members in order, what reading each of them costs in
uncompressed bytes, and the error the reader stops with, if any.
-/

namespace Firestone.Oci

open Firestone.Lib

/-! ## Members and layers -/

/-- Tar entry types. -/
inductive EntryType
  | regular | link | symlink | char | block | directory | fifo | continuous
  | gnuLongName | gnuLongLink | gnuSparse | xGlobalHeader | xHeader | other (code : UInt8)
  deriving DecidableEq, Repr

/-- One tar member with its extension headers already read. Its ordinal is its position in the layer. -/
structure Member where
  path : Bytes
  link : Option Bytes
  entryType : EntryType
  dataSize : Nat
  /-- Uncompressed bytes of the header block and of the extension headers before it. -/
  headerBytes : Nat
  deriving DecidableEq, Repr

/-- One layer as the tar reader decodes it. -/
structure DecodedLayer where
  label : String
  members : List Member
  /-- Bytes read after the last payload, the end-of-archive block included. -/
  trailingBytes : Nat
  /-- The error the reader stops with after the last member. -/
  failure : Option FirestoneError
  deriving Repr

/-- Hardening caps applied while reading layers. -/
structure MergeLimits where
  maxUncompressedBytes : Nat
  maxEntries : Nat
  deriving Repr

/-- The classes of member the overlay rules distinguish. -/
inductive MergedKind
  | directory | regular | symlink | hardLink | other
  deriving DecidableEq, Repr

/-- A surviving member, keyed in the plan by its normalized path. -/
structure MergedEntry where
  layer : Nat
  ordinal : Nat
  kind : MergedKind
  linkTarget : Option Bytes
  localTarget : Option (Nat × Nat)
  symlinkTarget : Option Bytes
  deriving DecidableEq, Repr

/-- The path map of pass one. -/
abbrev Entries := Std.TreeMap Bytes MergedEntry

/-- How pass two emits a member whose linkage the merge had to repair. -/
inductive EmitMode
  | relink (target : Bytes)
  | promote (ordinal size : Nat)
  deriving DecidableEq, Repr

/-- The result of pass one. -/
structure MergePlan where
  entries : Entries
  overrides : Std.TreeMap Bytes EmitMode
  bytesRead : Nat

/-! ## Errors -/

/-- Hint repeated by every error that means the layer bytes are not usable. -/
def repullHint : String := "re-pull the image; the layer tar is malformed"

def layerError (message hint : String) : FirestoneError := (FirestoneError.new .dependency message).withHint hint

def capError (message : String) : FirestoneError :=
  (FirestoneError.new .dependency message).withHint "raise the OCI merge limits or use a smaller image"

def traversalError (raw : Bytes) (layer reason : String) : FirestoneError :=
  (FirestoneError.new .dependency
    ("layer " ++ layer ++ " holds the unsafe entry path `" ++ fromUtf8Lossy raw ++ "`: " ++ reason)).withHint
    "firestone refuses layer entries that could escape the image root"

/-! ## Paths -/

/-- The path separator. -/
def slash : UInt8 := 0x2F

/-- The component `.`. -/
def dot : Bytes := [0x2E]

/-- The component `..`. -/
def dotDot : Bytes := [0x2E, 0x2E]

/-- The whiteout marker `.wh.`. -/
def whiteoutStem : Bytes := [0x2E, 0x77, 0x68, 0x2E]

/-- The opaque-directory marker `.wh..wh..opq`. -/
def opaqueMarker : Bytes := [0x2E, 0x77, 0x68, 0x2E, 0x2E, 0x77, 0x68, 0x2E, 0x2E, 0x6F, 0x70, 0x71]

example : whiteoutStem = bytes ".wh." ∧ opaqueMarker = bytes ".wh..wh..opq" := by decide

/-- What follows `stem` in `name`, when `name` starts with it. -/
def stripStem (stem name : Bytes) : Option Bytes :=
  if stem.isPrefixOf name then some (name.drop stem.length) else none

/-- Splits a normalized path into its parent and last component. -/
def splitLastComponent (path : Bytes) : Bytes × Bytes :=
  match path.reverse.idxOf? slash with
  | some back => (path.take (path.length - 1 - back), path.drop (path.length - back))
  | none => ([], path)

/-- Joins a normalized parent with one component. -/
def joinPath (parent name : Bytes) : Bytes := if parent.isEmpty then name else parent ++ slash :: name

/-- Keeps the components that name something; a `..` component is refused. -/
def keepComponents : List Bytes → Option (List Bytes)
  | [] => some []
  | c :: cs =>
    if c = [] ∨ c = dot then keepComponents cs
    else if c = dotDot then none
    else (keepComponents cs).map (c :: ·)

/-- Shared normalization: drops `.` and empty components, rejects `..` and NUL. -/
def normalizeRelative (raw : Bytes) (layer : String) : Res (Option Bytes) :=
  if raw.isEmpty then .error (traversalError raw layer "the path is empty")
  else if raw.contains 0 then .error (traversalError raw layer "the path contains a NUL byte")
  else match keepComponents (raw.splitOn slash) with
    | none => .error (traversalError raw layer "the path contains a `..` component")
    | some [] => .ok none
    | some cs => .ok (some ([slash].intercalate cs))

/-- Normalizes and hardens an entry path; `none` is the archive root itself. -/
def normalizeEntryPath (raw : Bytes) (layer : String) : Res (Option Bytes) :=
  if raw.head? = some slash then .error (traversalError raw layer "the path is absolute")
  else normalizeRelative raw layer

/-- Normalizes and hardens a hardlink target, tolerating a leading separator. -/
def normalizeLinkTarget (raw : Bytes) (layer : String) : Res Bytes := do
  let trimmed := (stripStem [slash] raw).getD raw
  match ← normalizeRelative trimmed layer with
  | some path => .ok path
  | none => .error (traversalError raw layer "the path resolves to the archive root")

/-! ## The overlay rules -/

/-- Maps a tar entry type onto the classes the overlay rules distinguish. -/
def classifyEntry : EntryType → MergedKind
  | .directory => .directory
  | .regular | .continuous => .regular
  | .symlink => .symlink
  | .link => .hardLink
  | _ => .other

/-- The keys a range scan looks for below `path`. -/
def subtreeStem (path : Bytes) : Bytes := if path.isEmpty then path else path ++ [slash]

/-- The keys `dropLowerSubtree` removes. -/
def doomed (entries : Entries) (path : Bytes) (layer : Nat) (includeSelf : Bool) : List Bytes :=
  (if includeSelf && !path.isEmpty && (entries[path]?).any (·.layer < layer) then [path] else []) ++
    ((scanFrom entries (subtreeStem path)).filter (·.2.layer < layer)).map (·.1)

/-- Removes every lower-layer entry under `path`, and `path` itself for a whiteout. -/
def dropLowerSubtree (entries : Entries) (path : Bytes) (layer : Nat) (includeSelf : Bool) : Entries :=
  eraseAll entries (doomed entries path layer includeSelf)

/-! ## Hardlinks -/

/-- Largest link target that still fits the ustar `linkname` field. -/
def ustarLinkNameLimit : Nat := 100

/-- The maps `plan_hardlinks` fills. -/
structure LinkPlan where
  overrides : Std.TreeMap Bytes EmitMode
  representatives : List ((Nat × Nat) × Bytes)

/-- Decides how one surviving member is emitted. -/
def planHardlink (entries : Entries) (st : LinkPlan) (item : Bytes × MergedEntry) : Res LinkPlan :=
  let (path, entry) := item
  if entry.kind ≠ .hardLink then .ok st
  else match entry.linkTarget with
    | none => .error (layerError ("hardlink " ++ fromUtf8Lossy path ++ " has no target") repullHint)
    | some target =>
      let winner := entries[target]?
      if winner.any (·.layer = entry.layer) then .ok st
      else match entry.localTarget with
        | some (ordinal, size) =>
          match st.representatives.lookup (entry.layer, ordinal) with
          | some representative =>
            let mode := if representative.length ≤ ustarLinkNameLimit then EmitMode.relink representative
              else .promote ordinal size
            .ok { st with overrides := st.overrides.insert path mode }
          | none =>
            .ok { overrides := st.overrides.insert path (.promote ordinal size)
                  representatives := ((entry.layer, ordinal), path) :: st.representatives }
        | none =>
          if winner.any (·.kind = .regular) then .ok st
          else .error (layerError
            ("hardlink " ++ fromUtf8Lossy path ++ " points at the missing entry " ++ fromUtf8Lossy target) repullHint)

/-- Decides how every hardlink whose target was shadowed is emitted. -/
def planHardlinks (entries : Entries) : Res (Std.TreeMap Bytes EmitMode) := do
  let st ← entries.toList.foldlM (planHardlink entries) ⟨∅, []⟩
  return st.overrides

/-! ## Pass one -/

/-- Saturating addition of 64-bit counters. -/
def satAdd (a b : Nat) : Nat := min (a + b) (2 ^ 64 - 1)

/-- Bytes needed to pad `size` up to a whole block. -/
def paddingFor (size : Nat) : Nat := (512 - size % 512) % 512

/-- What pass one carries from member to member of one layer. -/
structure LayerPass where
  entries : Entries
  membersRead : Nat
  cursorBytes : Nat
  nextOrdinal : Nat
  /-- The regular files of this layer so far, the latest first. -/
  localFiles : List (Bytes × (Nat × Nat))

/-- The normalized target of a hard link; other members have none. -/
def hardLinkTarget (label : String) (m : Member) : Res (Option Bytes) :=
  if classifyEntry m.entryType = .hardLink then some <$> normalizeLinkTarget (m.link.getD []) label else .ok none

/-- The map entry of an ordinary member. -/
def mergedEntry (layer ordinal : Nat) (label : String) (m : Member) (localFiles : List (Bytes × (Nat × Nat))) :
    Res MergedEntry := do
  let linkTarget ← hardLinkTarget label m
  return { layer, ordinal, kind := classifyEntry m.entryType, linkTarget
           localTarget := linkTarget.bind fun target => localFiles.lookup target
           symlinkTarget := if classifyEntry m.entryType = .symlink then m.link else none }

/-- The effect of one member with a normalized path on the path map. -/
def mergePath (st : LayerPass) (layer : Nat) (label : String) (m : Member) (path : Bytes) :
    Res (Entries × List (Bytes × (Nat × Nat))) :=
  let (parent, name) := splitLastComponent path
  if name = opaqueMarker then .ok (dropLowerSubtree st.entries parent layer false, st.localFiles)
  else match stripStem whiteoutStem name with
    | some removed =>
      if removed.isEmpty then
        .error (layerError ("layer " ++ label ++ " has an empty whiteout name") repullHint)
      else .ok (dropLowerSubtree st.entries (joinPath parent removed) layer true, st.localFiles)
    | none => do
      let localFiles := if m.entryType = .regular ∨ m.entryType = .continuous
        then (path, (st.nextOrdinal, m.dataSize)) :: st.localFiles else st.localFiles
      let entries := if classifyEntry m.entryType = .directory then st.entries
        else dropLowerSubtree st.entries path layer false
      let entry ← mergedEntry layer st.nextOrdinal label m localFiles
      return (entries.insert path entry, localFiles)

/-- The hardening caps, checked before a member is looked at. -/
def checkCaps (limits : MergeLimits) (membersRead projected : Nat) : Res Unit :=
  if membersRead > limits.maxEntries then
    .error (capError ("the OCI layers hold more than " ++ toString limits.maxEntries ++ " entries"))
  else if projected > limits.maxUncompressedBytes then
    .error (capError ("the OCI layers expand beyond " ++ toString limits.maxUncompressedBytes ++ " uncompressed bytes"))
  else .ok ()

/-- The counters after a member's header and payload were read. -/
def LayerPass.advance (st : LayerPass) (m : Member) : LayerPass :=
  { st with
    membersRead := st.membersRead + 1
    cursorBytes := satAdd (satAdd (satAdd st.cursorBytes m.headerBytes) m.dataSize) (paddingFor m.dataSize)
    nextOrdinal := st.nextOrdinal + 1 }

/-- Reads one member of a layer: the caps, the path, the overlay rules, and the payload that is stepped over. -/
def mergeMember (limits : MergeLimits) (layer : Nat) (label : String) (bytesRead : Nat) (st : LayerPass) (m : Member) :
    Res LayerPass := do
  checkCaps limits (st.membersRead + 1) (satAdd (satAdd bytesRead (satAdd st.cursorBytes m.headerBytes)) m.dataSize)
  match ← normalizeEntryPath m.path label with
  -- the archive's own root directory entry: nothing to merge
  | none => return st.advance m
  | some path =>
    let (entries, localFiles) ← mergePath st layer label m path
    return { st.advance m with entries, localFiles }

/-- What pass one carries from layer to layer. -/
structure PlanPass where
  entries : Entries
  bytesRead : Nat
  membersRead : Nat

/-- The label of a layer in errors. -/
def cursorLabel (source : DecodedLayer) (layer : Nat) : String :=
  source.label ++ " (index " ++ toString layer ++ ")"

/-- Reads one whole layer. -/
def mergeLayer (limits : MergeLimits) (st : PlanPass) (layer : Nat) (source : DecodedLayer) : Res PlanPass := do
  let pass ← source.members.foldlM (mergeMember limits layer (cursorLabel source layer) st.bytesRead)
    ⟨st.entries, st.membersRead, 0, 0, []⟩
  match source.failure with
  | some error => throw error
  | none => return ⟨pass.entries, satAdd st.bytesRead (satAdd pass.cursorBytes source.trailingBytes), pass.membersRead⟩

/-- Walks the layers from number `k` on. -/
def mergeLayersFrom (limits : MergeLimits) : PlanPass → Nat → List DecodedLayer → Res PlanPass
  | st, _, [] => .ok st
  | st, k, source :: sources => do
    let st ← mergeLayer limits st k source
    mergeLayersFrom limits st (k + 1) sources

/-- Pass one: walks every layer and applies the overlay rules. -/
def buildPlan (limits : MergeLimits) (layers : List DecodedLayer) : Res MergePlan := do
  let st ← mergeLayersFrom limits ⟨∅, 0, 0⟩ 0 layers
  let overrides ← planHardlinks st.entries
  return ⟨st.entries, overrides, st.bytesRead⟩

end Firestone.Oci
