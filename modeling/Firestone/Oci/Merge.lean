import Firestone.Oci.Tar

/-!
# Pass two of the layer merge

`write_merged` walks the plan in path order and writes each surviving member from its layer, repairing the links the
plan says, with the injected init and its marker put in their sorted places. What is written is kept here as a list of
members, each with its extension headers, header block and payload; `Merged.bytes` is the stream.
-/

namespace Firestone.Oci

open Firestone.Lib

/-! ## Requests -/

/-- The runtime fields kept from an image configuration. -/
structure OciImageConfig where
  env : List String
  entrypoint : List String
  cmd : List String
  workingDir : Option String
  user : Option String
  deriving DecidableEq, Repr

/-- Everything the merge needs about one image. A slice of bytes is shorter than `2 ^ 63`. -/
structure MergeRequest where
  layers : List LayerSource
  config : OciImageConfig
  limits : MergeLimits
  injectedInit : Option { b : Bytes // b.length < 2 ^ 63 }

structure MergeSummary where
  entriesWritten : Nat
  uncompressedBytesRead : Nat
  unpackedBytes : Nat
  config : OciImageConfig
  deriving DecidableEq, Repr

/-! ## The injected members -/

def firestoneInitPath : Bytes := bytes "sbin/firestone-init"

def firestoneOciMarkerPath : Bytes := bytes "etc/firestone-oci"

/-- One component of a lexical join. -/
def pushComponent (components : List Bytes) (c : Bytes) : List Bytes :=
  if c = [] ∨ c = dot then components else if c = dotDot then components.dropLast else components ++ [c]

/-- Lexically joins a target onto a base, resolving `.` and `..` inside the root. -/
def lexicalJoin (base target : Bytes) : Bytes :=
  let sources := if target.head? = some slash then [[], target] else [base, target]
  [slash].intercalate ((sources.flatMap (·.splitOn slash)).foldl pushComponent [])

/-- How many symlinks one injection path may traverse before it gives up. -/
def maxInjectionLinkHops : Nat := 8

/-- Follows symlinks from one candidate. -/
def followLinks (links : Bytes → Option Bytes) : Nat → Bytes → Bytes
  | 0, candidate => candidate
  | hops + 1, candidate =>
    match links candidate with
    | none => candidate
    | some target =>
      let next := lexicalJoin (splitLastComponent candidate).1 target
      if next.isEmpty ∨ next = candidate then candidate else followLinks links hops next

/-- Resolves the parent of a path through symlinks, component by component. -/
def resolveThrough (links : Bytes → Option Bytes) (path : Bytes) : Bytes :=
  let (parent, name) := splitLastComponent path
  let resolve := fun resolved component => followLinks links maxInjectionLinkHops (joinPath resolved component)
  joinPath (((parent.splitOn slash).filter (· ≠ [])).foldl resolve []) name

/-- The symlinks of the merged tree. -/
def symlinkIn (entries : Entries) (path : Bytes) : Option Bytes := entries[path]?.bind (·.symlinkTarget)

/-- Resolves one injected member's path through the merged tree's own symlinks. -/
def resolveInjectionPath (entries : Entries) (path : Bytes) : Bytes := resolveThrough (symlinkIn entries) path

/-- A member of the merged tar in its sorted place. -/
inductive Slot
  | injected (path : Bytes)
  | entry (path : Bytes) (entry : MergedEntry)
  deriving DecidableEq

/-- The planned path. -/
def Slot.path : Slot → Bytes
  | .injected path => path
  | .entry path _ => path

/-- Puts the injected paths, in order, among the surviving ones; a survivor at an injected path is shadowed. -/
@[grind =] def interleave : List Bytes → List (Bytes × MergedEntry) → List Slot
  | injected, [] => injected.map .injected
  | injected, (path, entry) :: rest =>
    let due := injected.takeWhile fun p => (compare p path).isLE
    due.map .injected ++ (if path ∈ due then [] else [.entry path entry]) ++
      interleave (injected.drop due.length) rest

/-- The two injected paths, sorted. -/
def injectedThrough (request : MergeRequest) (links : Bytes → Option Bytes) : List Bytes :=
  match request.injectedInit with
  | none => []
  | some _ =>
    let marker := resolveThrough links firestoneOciMarkerPath
    let init := resolveThrough links firestoneInitPath
    if (compare marker init).isLE then [marker, init] else [init, marker]

def injectedPaths (request : MergeRequest) (entries : Entries) : List Bytes :=
  injectedThrough request (symlinkIn entries)

def slots (request : MergeRequest) (plan : MergePlan) : List Slot :=
  interleave (injectedPaths request plan.entries) plan.entries.toList

/-! ## Writing -/

/-- One member as it is written. -/
structure Emission where
  extensions : List ExtensionHeader
  header : Block
  payload : Bytes
  deriving DecidableEq

def Emission.bytes (e : Emission) : Bytes :=
  e.extensions.flatMap writeExtension ++ e.header.1 ++ e.payload ++ zeros (paddingFor e.payload.length)

/-- Bytes the sizing rule charges for one directory, symlink or hard link. -/
def metadataEntryBytes : Nat := 4096

/-- A member's contribution to the unpacked size. -/
def unpackedSize (mode : Option EmitMode) (kind : MergedKind) (dataSize : Nat) : Nat :=
  match mode with
  | some (.promote _ size) => size
  | some (.relink _) => metadataEntryBytes
  | none =>
    match kind with
    | .regular => dataSize
    | .directory | .symlink | .hardLink => metadataEntryBytes
    | .other => 0

section ops

variable (ops : HeaderOps)

def injectionError (path : String) : FirestoneError :=
  layerError ("cannot build the injected header for /" ++ path) "report this as a firestone bug"

def orError {α : Type} (e : FirestoneError) : Option α → Res α
  | some a => .ok a
  | none => .error e

/-- Builds a deterministic ustar header for an injected member. -/
def injectedHeader (path : Bytes) (mode : UInt32) (size : Nat) : Res Block := do
  let rendered := fromUtf8Lossy path
  let header ← orError (injectionError rendered) (ops.setPath ops.newUstar rendered)
  let header ← orError (injectionError rendered) (ops.setUsername header "root")
  let header ← orError (injectionError rendered) (ops.setGroupname header "root")
  let header := ops.setMode (ops.setEntryType header .regular) mode
  let header := ops.setMtime (ops.setGid (ops.setUid header 0) 0) 0
  return ops.setCksum (ops.setSize header size)

/-- Writes one injected member: the init binary at its path, the empty marker elsewhere. -/
def writeInjected (path initPath init : Bytes) : Res (Emission × Nat) :=
  if path = initPath then do
    let header ← injectedHeader ops path 0o755 init.length
    return (⟨[], header, init⟩, init.length)
  else do
    let header ← injectedHeader ops path 0o644 0
    return (⟨[], header, []⟩, 0)

/-- The content of a promoted hard link, read by a cursor of its own. -/
def promotedContent (layers : List LayerSource) (path : Bytes) (layer ordinal size : Nat) : Res Bytes :=
  match layers[layer]? with
  | none => .error (layerError ("layer index " ++ toString layer ++ " is out of range") "report this as a firestone bug")
  | some source => do
    let (target, content) ← (Cursor.new layer source).seekTo ops ordinal
    if ¬(target.entryType = .regular ∨ target.entryType = .continuous) ∨ target.dataSize ≠ size then
      .error (layerError ("hardlink " ++ fromUtf8Lossy path ++ " has an unusable content source") repullHint)
    else do
      let (payload, _) ← content.copyData
      return payload

/-- Streams one member, repairing its header when the plan says so. -/
def emit (layers : List LayerSource) (mode : Option EmitMode) (path : Bytes) (layer : Nat) (member : TarMember)
    (cursor : Cursor) : Res (Emission × Cursor) :=
  match mode with
  | none => do
    let (payload, cursor) ← cursor.copyData
    return (⟨member.extensions, member.header, payload⟩, cursor)
  | some (.relink target) => do
    let extensions ← filterExtensions ops false member.extensions
    let header ← orError (layerError ("cannot re-point hardlink " ++ fromUtf8Lossy path) repullHint)
      (ops.setLinkNameLiteral member.header target)
    let cursor ← cursor.skipData
    return (⟨extensions, ops.setCksum header, []⟩, cursor)
  | some (.promote ordinal size) => do
    let extensions ← filterExtensions ops true member.extensions
    let header ← orError (layerError ("cannot promote hardlink " ++ fromUtf8Lossy path) repullHint)
      (ops.setLinkNameLiteral (ops.setSize (ops.setEntryType member.header .regular) size) [])
    let cursor ← cursor.skipData
    let payload ← promotedContent ops layers path layer ordinal size
    return (⟨extensions, ops.setCksum header, payload⟩, cursor)

/-- Streams one surviving member out of its layer. -/
def writeEntry (request : MergeRequest) (plan : MergePlan) (cursors : List Cursor) (path : Bytes) (entry : MergedEntry) :
    Res (Emission × Nat × List Cursor) :=
  match cursors[entry.layer]? with
  | none => .error
      (layerError ("layer index " ++ toString entry.layer ++ " is out of range") "report this as a firestone bug")
  | some cursor => do
    let (member, cursor) ← cursor.seekTo ops entry.ordinal
    let observed ← normalizeEntryPath member.path cursor.label
    if observed ≠ some path then
      .error (layerError ("layer " ++ cursor.label ++ " changed while it was being merged")
        "re-pull the image and merge it again")
    else do
      let (emission, cursor) ← emit ops request.layers plan.overrides[path]? path entry.layer member cursor
      return (emission, unpackedSize plan.overrides[path]? entry.kind member.dataSize, cursors.set entry.layer cursor)

/-- What pass two carries from slot to slot. -/
structure Writing where
  cursors : List Cursor
  emissions : List Emission
  written : Nat
  unpacked : Nat

def Writing.add (st : Writing) (e : Emission) (unpacked : Nat) : Writing :=
  { st with emissions := st.emissions ++ [e], written := st.written + 1, unpacked := satAdd st.unpacked unpacked }

def writeSlot (request : MergeRequest) (plan : MergePlan) (st : Writing) : Slot → Res Writing
  | .injected path => do
    let initPath := resolveInjectionPath plan.entries firestoneInitPath
    let init := (request.injectedInit.map (·.1)).getD []
    let (emission, unpacked) ← writeInjected ops path initPath init
    return st.add emission unpacked
  | .entry path entry => do
    let (emission, unpacked, cursors) ← writeEntry ops request plan st.cursors path entry
    return { st.add emission unpacked with cursors }

/-- Pass two: streams the surviving members out in sorted order. -/
def writeMerged (request : MergeRequest) (plan : MergePlan) : Res Writing :=
  (slots request plan).foldlM (writeSlot ops request plan)
    ⟨request.layers.mapIdx fun index source => Cursor.new index source, [], 0, 0⟩

/-- What the merge produced: the summary, and the members of the stream. -/
structure Merged where
  summary : MergeSummary
  emissions : List Emission

/-- The output stream, closed by two zero blocks. -/
def Merged.bytes (m : Merged) : Bytes := m.emissions.flatMap Emission.bytes ++ zeros 1024

/-- The layers as pass one decodes them. -/
def MergeRequest.decoded (request : MergeRequest) : List DecodedLayer :=
  request.layers.mapIdx fun index source => source.decode ops index

/-- Merges the layers of one image into a single canonical tar stream. -/
def mergeLayers (request : MergeRequest) : Res Merged := do
  let plan ← buildPlan request.limits (request.decoded ops)
  let out ← writeMerged ops request plan
  return ⟨⟨out.written, plan.bytesRead, out.unpacked, request.config⟩, out.emissions⟩

end ops

end Firestone.Oci
