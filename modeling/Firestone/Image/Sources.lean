import Firestone.Image.Catalogs
import Firestone.Lib.OsPath
import Firestone.Oci.References
import Firestone.Spec.Document

/-!
# Where an image comes from

An image is written as a path, an HTTPS URL, an OCI reference or a reference to the catalog. What a machine stores is a
canonical form of it, which is resolved again when the machine starts, by tests that are made in another order.

* `resolve` — the source of an image as the user wrote it.
* `resolvePersisted` — the source of a reference that is stored with a machine.
* `resolvePersisted_resolve` — the stored reference has the source that the image had.
* `Resolved.generations` — it is a source of which the store counts generations.

The file system is a snapshot: it answers the same call the same way. The parser of URLs and the file system are parameters.
-/

namespace Firestone.Image.Sources

open Firestone.Lib Firestone.Image.Catalogs
open Firestone.Image.Generations (ChecksumAlgorithm ImageFormat CatalogFirmware ImageVerification ExpectedChecksum)
open Firestone.Oci.Registry (OciReference)
open Firestone.Oci.References (OciClassification)

/-! ## The file system -/

inductive IoError
  | notFound | nameTooLong | loop | other
  deriving DecidableEq, Repr

structure FileMetadata where
  isFile : Bool
  uid : Nat
  mode : Nat
  inode : Nat
  deriving DecidableEq, Repr

/-- The calls that open a local image. A file that was opened may still fail to be inspected. -/
structure FileSystem where
  canonicalize : OsString → Except IoError OsString
  openDirectory : OsString → Except IoError Unit
  openFile : OsString → OsString → Except IoError (Option FileMetadata)

/-- A canonical path is absolute, made of plain names, and canonical. -/
def FileSystem.Lawful (fs : FileSystem) : Prop :=
  ∀ path canonical, fs.canonicalize path = .ok canonical →
    (∃ names, (∀ name ∈ names, IsName name) ∧ canonical = absolutePath names) ∧ fs.canonicalize canonical = .ok canonical

structure OpenedLocalSource where
  path : OsString
  snapshot : FileMetadata
  deriving DecidableEq, Repr

/-- Opens a file that exists, by its name in the canonical directory. -/
def tryOpenLocalSource (fs : FileSystem) (currentUid : Nat) (path : OsString) : Res (Option OpenedLocalSource) :=
  let shown := "'" ++ path.display ++ "'"
  match parentPath path, fileName path with
  | none, _ => .error (.new .invalidSpec ("local image path " ++ shown ++ " has no parent directory"))
  | some _, none => .error (.new .invalidSpec ("local image path " ++ shown ++ " has no file name"))
  | some parent, some fileName =>
    match fs.canonicalize parent with
    | .error .notFound => .ok none
    | .error _ => .error <| (FirestoneError.new .invalidSpec
        ("cannot canonicalize local image parent '" ++ parent.display ++ "'")).withHint "check every parent path component"
    | .ok canonicalParent =>
      match fs.openDirectory canonicalParent with
      | .error _ => .error (.new .invalidSpec ("cannot open local image parent '" ++ canonicalParent.display ++ "'"))
      | .ok () =>
        match fs.openFile canonicalParent fileName with
        | .error .notFound | .error .nameTooLong => .ok none
        | .error .loop => .error <| (FirestoneError.new .invalidSpec ("local image " ++ shown ++ " is a symlink")).withHint
            "use a regular raw or qcow2 file, not a final-component symlink"
        | .error .other => .error <| (FirestoneError.new .generic ("cannot open local image " ++ shown)).withHint
            "check that the image is a readable regular file"
        | .ok none => .error (.new .generic ("cannot inspect opened local image " ++ shown))
        | .ok (some metadata) =>
          if !metadata.isFile then
            .error <| (FirestoneError.new .invalidSpec ("local image " ++ shown ++ " is not a regular file")).withHint
              "use a regular raw or qcow2 file, not a FIFO, device, or socket"
          else if metadata.uid ≠ currentUid ∧ metadata.uid ≠ 0 then
            .error <| (FirestoneError.new .dependency
              ("local image " ++ shown ++ " is owned by uid " ++ toString metadata.uid)).withHint
              "use an image owned by the current user or root"
          else if metadata.mode &&& 0o022 ≠ 0 then
            .error <| (FirestoneError.new .dependency
              ("local image " ++ shown ++ " is group- or world-writable")).withHint
              "remove group/world write permissions before pulling the image"
          else .ok (some ⟨joinPath canonicalParent fileName, metadata⟩)

def invalidInputPath (key message hint : String) : FirestoneError :=
  (FirestoneError.new .invalidSpec ("invalid '" ++ key ++ "': " ++ message)).withHint hint

/-- `Paths::resolve_input_path`: expands a leading `~`, and puts a relative path below its base. -/
def resolveInputPath (homeDir : Option OsString) (path baseDir : OsString) (key : String) : Res OsString :=
  if path = [] then
    .error (invalidInputPath key "path is empty" "set a non-empty absolute path or a path relative to the input file")
  else do
    let components := pathComponents path
    let expanded ← match components.head? with
      | some (.normal name) =>
        if name = OsString.ofString "~" then
          match homeDir with
          | some home => .ok (components.tail.foldl (fun expanded c => joinPath expanded c.text) home)
          | none => .error (invalidInputPath key "cannot expand '~' because the home directory is unavailable"
              "use an absolute path or set HOME")
        else if name.head? = some (.char '~') then
          .error (invalidInputPath key ("user-home syntax is not supported in '" ++ path.display ++ "'")
            "use '~/' for the current user or an absolute path")
        else .ok path
      | _ => .ok path
    if isAbsolute expanded then return expanded else return joinPath baseDir expanded

/-! ## Sources -/

inductive ImageSourceLocation
  | https (url : String)
  | local (path : OsString)
  | oci (reference : OciReference)

/-- An image resolved for one architecture. -/
structure ResolvedImageSource where
  sourceRef : String
  sourceUrl : Option String
  architecture : Arch
  sourceFormat : Option ImageFormat
  firmware : Option CatalogFirmware
  sshdPath : Option String
  verification : Option ImageVerification
  location : ImageSourceLocation
  checksum : ExpectedChecksum
  localSource : Option OpenedLocalSource

structure ImageStore where
  catalog : Catalog
  architecture : Arch
  homeDir : Option OsString
  currentUid : Nat
  parser : UrlParser
  fileSystem : FileSystem

/-- An explicit reference must parse; one that only looks like a registry may turn out to be something else. -/
@[grind =] def classifyOciReference (value : String) : Res (Option OciReference) :=
  match Oci.References.classify value with
  | none => .ok none
  | some classification =>
    match Oci.References.parse value with
    | .ok reference => .ok (some reference)
    | .error error => if classification = .scheme then .error error else .ok none

def validateSha256 (value : String) : Res String :=
  if Manifests.isHex value.toList 64 then .ok (toAsciiLowercase value)
  else .error <| (FirestoneError.new .usage "--sha256 must contain exactly 64 hexadecimal characters").withHint
    "copy the complete SHA-256 digest, not an abbreviated prefix"

namespace ImageStore

variable (store : ImageStore)

/-- A URL, with the digest that was supplied for it. -/
def urlSource (url : Url) (verification : Option ImageVerification) : ResolvedImageSource where
  sourceRef := url.text
  sourceUrl := some url.text
  architecture := store.architecture
  sourceFormat := none
  firmware := none
  sshdPath := none
  verification := verification
  location := .https url.text
  checksum := match verification with
    | some verification => .digest verification
    | none => .none
  localSource := none

def localSource (sourceRef : String) (opened : OpenedLocalSource) : ResolvedImageSource where
  sourceRef := sourceRef
  sourceUrl := none
  architecture := store.architecture
  sourceFormat := none
  firmware := none
  sshdPath := none
  verification := none
  location := .local opened.path
  checksum := .none
  localSource := some opened

def ociSource (reference : OciReference) : ResolvedImageSource where
  sourceRef := reference.text
  sourceUrl := none
  architecture := store.architecture
  sourceFormat := none
  firmware := none
  sshdPath := none
  verification := none
  location := .oci reference
  checksum := .none
  localSource := none

/-- The source of a release, which the same statements make in both functions. -/
def catalogSource (resolved : ResolvedCatalogEntry) : Res ResolvedImageSource :=
  match parseHttpsUrl store.parser resolved.source.url with
  | none => .error (.new .invalidSpec ("catalog image '" ++ resolved.canonicalReference ++ "' has an invalid HTTPS URL"))
  | some url =>
    let checksum : ExpectedChecksum := match resolved.source.checksum with
      | .sha256 digest => .digest ⟨.sha256, digest⟩
      | .manifestUrl manifest => .manifest manifest resolved.checksumAlgorithm
    .ok
      { sourceRef := resolved.canonicalReference
        sourceUrl := some url.text
        architecture := store.architecture
        sourceFormat := some resolved.format
        firmware := some resolved.firmware
        sshdPath := resolved.sshdPath
        verification := match checksum with
          | .digest verification => some verification
          | _ => none
        location := .https url.text
        checksum
        localSource := none }

/-- The source of a file that was opened: its path must be text. -/
def resolveLocal (opened : OpenedLocalSource) (suppliedSha256 : Option String) : Res ResolvedImageSource :=
  if suppliedSha256.isSome then
    .error <| (FirestoneError.new .usage "--sha256 is accepted only for HTTPS image URLs").withHint
      "remove --sha256 when pulling a local file"
  else match opened.path.toStr with
    | some sourceRef => .ok (store.localSource sourceRef opened)
    | none => .error <| (FirestoneError.new .invalidSpec
        ("local image path '" ++ opened.path.display ++ "' is not UTF-8")).withHint
        "rename the path using UTF-8 characters and retry"

def resolveUrl (url : Url) (suppliedSha256 : Option String) : Res ResolvedImageSource :=
  match suppliedSha256 with
  | none => .ok (store.urlSource url none)
  | some digest => do
    let digest ← validateSha256 digest
    return store.urlSource url (some ⟨.sha256, digest⟩)

def resolveOci (reference : OciReference) (suppliedSha256 : Option String) : Res ResolvedImageSource :=
  if suppliedSha256.isSome then
    .error <| (FirestoneError.new .usage
      ("--sha256 is not accepted for OCI image reference '" ++ reference.text ++ "'")).withHint
      "pin an OCI image with a repo@sha256:… digest reference instead of --sha256"
  else .ok (store.ociSource reference)

/-- A reference to the catalog; what looks like a path is reported as one that does not exist. -/
def resolveCatalog (image : String) (path : OsString) (suppliedSha256 : Option String) : Res ResolvedImageSource :=
  if suppliedSha256.isSome then
    .error <| (FirestoneError.new .usage "--sha256 is accepted only for HTTPS image URLs").withHint
      "use a strict https:// URL or remove --sha256"
  else match store.catalog.resolve image store.architecture.asStr with
    | .ok resolved => store.catalogSource resolved
    | .error error =>
      if '/' ∈ image.toList ∨ image.toList.head? = some '.' ∨ image.toList.head? = some '~' then
        .error <| (FirestoneError.new .notFound ("local image path '" ++ path.display ++ "' does not exist")).withHint
          "check the path or use a known catalog image reference"
      else .error error

/-- `ImageStore::resolve`: a local file first, then a URL, an OCI reference, and the catalog. -/
def resolve (image : String) (suppliedSha256 : Option String) (sourceBase : OsString) : Res ResolvedImageSource := do
  let path ← resolveInputPath store.homeDir (OsString.ofString image) sourceBase "image"
  match ← tryOpenLocalSource store.fileSystem store.currentUid path with
  | some opened => store.resolveLocal opened suppliedSha256
  | none =>
    match parseHttpsUrl store.parser image with
    | some url => store.resolveUrl url suppliedSha256
    | none =>
      match ← classifyOciReference image with
      | some reference => store.resolveOci reference suppliedSha256
      | none => store.resolveCatalog image path suppliedSha256

/-- `ImageStore::resolve_persisted`: a URL first, then an absolute path, an OCI reference, and the catalog. -/
def resolvePersisted (reference : String) : Res ResolvedImageSource :=
  match parseHttpsUrl store.parser reference with
  | some url => .ok (store.urlSource url none)
  | none =>
    if isAbsolute (OsString.ofString reference) then do
      match ← tryOpenLocalSource store.fileSystem store.currentUid (OsString.ofString reference) with
      | some opened => return store.localSource opened.path.display opened
      | none => .error <| (FirestoneError.new .notFound ("persisted local image path '" ++ reference ++
          "' does not exist")).withHint "restore the source or use the already-pinned owned image"
    else do
      match ← classifyOciReference reference with
      | some oci => return store.ociSource oci
      | none => do
        let resolved ← store.catalog.resolve reference store.architecture.asStr
        store.catalogSource resolved

end ImageStore

/-! ## Forms that are told apart -/

theorem isAbsolute_ofString {s : String} : isAbsolute (OsString.ofString s) = true ↔ s.toList.head? = some '/' := by
  cases hs : s.toList with
  | nil => simp [isAbsolute, OsString.ofString, hs]
  | cons c rest => simp [isAbsolute, OsString.ofString, hs, sep]

theorem eq_slash_of_asciiLower {c : Char} (h : asciiLower c = '/') : c = '/' := by
  unfold asciiLower at h
  split at h
  · rename_i hupper
    simp only [Bool.and_eq_true, decide_eq_true_eq] at hupper
    have hrange : 65 ≤ c.toNat ∧ c.toNat ≤ 90 := hupper
    obtain ⟨hlow, hhigh⟩ := hrange
    generalize c.toNat = n at h hlow hhigh
    interval_cases n <;> exact absurd h (by decide)
  · exact h

/-- A text without a slash is neither a URL, nor an absolute path, nor an OCI reference. -/
theorem plain_of_no_slash {parser : UrlParser} (hp : parser.Lawful) {value : String} (h : '/' ∉ value.toList) :
    parseHttpsUrl parser value = none ∧ isAbsolute (OsString.ofString value) = false ∧
      classifyOciReference value = .ok none := by
  have hstart : ∀ start : String, '/' ∈ start.toList → ¬ start.toList <+: value.toList :=
    fun start hslash hstarts => h (hstarts.subset hslash)
  refine ⟨parseHttpsUrl_none hp ?_, ?_, ?_⟩
  · intro hstarts
    obtain ⟨c, hc, hslash⟩ := List.mem_map.mp (hstarts.subset (show '/' ∈ "https://".toList by decide))
    exact h (eq_slash_of_asciiLower hslash ▸ hc)
  · rw [Bool.eq_false_iff, Ne, isAbsolute_ofString]
    exact fun hhead => h (List.mem_of_mem_head? hhead)
  · have hscheme : Oci.References.stripScheme value = none := by
      rw [Oci.References.stripScheme, stripPrefix, stripPrefix, if_neg (hstart _ (by decide)), if_neg (hstart _ (by decide))]
      rfl
    rw [classifyOciReference, Oci.References.classify, hscheme, splitOnce_none h]
    rfl

/-- The text of an OCI reference is neither a URL nor an absolute path. -/
theorem text_not_url {parser : UrlParser} (hp : parser.Lawful) {reference : OciReference}
    (h : Oci.References.Canonical reference) :
    parseHttpsUrl parser reference.text = none ∧ isAbsolute (OsString.ofString reference.text) = false := by
  obtain ⟨rest, hrest⟩ := Oci.References.exists_text reference
  have hslash : '/' ∉ reference.registry.toList := (Oci.References.not_mem_registry h.registry).1
  have htext : reference.text.toList = reference.registry.toList ++ '/' :: rest := by rw [hrest, String.toList_ofList]
  constructor
  · refine parseHttpsUrl_none hp fun hprefix => ?_
    obtain ⟨after, hafter⟩ := hprefix
    rw [htext, List.map_append, List.map_cons] at hafter
    -- both texts have their first slash at the same place
    have hlower : '/' ∉ reference.registry.toList.map asciiLower := by
      intro hmem
      obtain ⟨c, hc, hc'⟩ := List.mem_map.mp hmem
      exact hslash (eq_slash_of_asciiLower hc' ▸ hc)
    have hsplit := splitOnce_append (t := rest.map asciiLower) hlower
    have hsplit' := splitOnce_append (t := '/' :: after) (show '/' ∉ "https:".toList by decide)
    have hsame : "https:".toList ++ '/' :: ('/' :: after) = reference.registry.toList.map asciiLower ++ '/' :: rest.map asciiLower :=
      hafter
    rw [hsame, hsplit] at hsplit'
    have hhost : toAsciiLowercase reference.registry = "https:" := by
      have := congrArg Prod.fst (Option.some.inj hsplit')
      rwa [String.ofList_toList] at this
    have hregistry : reference.registry = "https:" := by
      rw [← h.normal, Oci.References.normalizeRegistry, hhost]
      exact if_neg (by decide)
    have hcheck := h.registry
    rw [hregistry] at hcheck
    revert hcheck
    decide
  · rw [Bool.eq_false_iff, Ne, isAbsolute_ofString, htext]
    intro hhead
    cases hregistry : reference.registry.toList with
    | nil =>
      have hempty : reference.registry = "" := String.toList_inj.mp hregistry
      have hcheck := h.registry
      rw [hempty] at hcheck
      revert hcheck
      decide
    | cons c tail =>
      rw [hregistry] at hhead hslash
      cases hhead
      exact hslash List.mem_cons_self

theorem classifyOciReference_ok {value : String} {reference : OciReference}
    (h : classifyOciReference value = .ok (some reference)) : Oci.References.Canonical reference := by
  unfold classifyOciReference at h
  split at h
  · cases h
  · split at h
    · rename_i hparse
      cases h
      exact Oci.References.parse_canonical hparse
    · split at h <;> cases h

theorem classifyOciReference_text {reference : OciReference} (h : Oci.References.Canonical reference) :
    classifyOciReference reference.text = .ok (some reference) := by
  rw [classifyOciReference, Oci.References.classify_text h]
  dsimp only
  rw [Oci.References.parse_text h]

/-! ## Files that are found again -/

section Local

variable {fs : FileSystem} {currentUid : Nat} {path : OsString} {opened : OpenedLocalSource}

/-- What it takes to open a local image. -/
theorem tryOpenLocalSource_iff : tryOpenLocalSource fs currentUid path = .ok (some opened) ↔
    ∃ parent name canonicalParent, parentPath path = some parent ∧ fileName path = some name ∧
      fs.canonicalize parent = .ok canonicalParent ∧ fs.openDirectory canonicalParent = .ok () ∧
      fs.openFile canonicalParent name = .ok (some opened.snapshot) ∧ opened.snapshot.isFile = true ∧
      (opened.snapshot.uid = currentUid ∨ opened.snapshot.uid = 0) ∧ opened.snapshot.mode &&& 0o022 = 0 ∧
      opened.path = joinPath canonicalParent name := by
  constructor
  · intro h
    unfold tryOpenLocalSource at h
    dsimp only at h
    split at h
    · cases h
    · cases h
    · rename_i parent name hparent hname
      split at h
      · cases h
      · cases h
      · rename_i canonicalParent hcanonical
        split at h
        · cases h
        · rename_i hdirectory
          split at h
          · cases h
          · cases h
          · cases h
          · cases h
          · cases h
          · rename_i metadata hfile
            split at h
            · cases h
            · rename_i hisFile
              split at h
              · cases h
              · rename_i huid
                split at h
                · cases h
                · rename_i hmode
                  cases h
                  refine ⟨parent, name, canonicalParent, hparent, hname, hcanonical, hdirectory, hfile, ?_, ?_, ?_, rfl⟩
                  · simpa using hisFile
                  · by_cases hself : metadata.uid = currentUid
                    · exact .inl hself
                    · exact .inr (not_not.mp fun hroot => huid ⟨hself, hroot⟩)
                  · exact not_not.mp hmode
  · rintro ⟨parent, name, canonicalParent, hparent, hname, hcanonical, hdirectory, hfile, hisFile, huid, hmode, hpath⟩
    have hnot : ¬ (opened.snapshot.uid ≠ currentUid ∧ opened.snapshot.uid ≠ 0) := by
      rintro ⟨hself, hroot⟩
      exact huid.elim hself hroot
    have hopened : (⟨joinPath canonicalParent name, opened.snapshot⟩ : OpenedLocalSource) = opened := by
      rw [← hpath]
    simp only [tryOpenLocalSource, hparent, hname, hcanonical, hdirectory, hfile, hisFile, hmode, if_neg hnot]
    rw [hopened]
    rfl

/-- A file that was opened is opened again by the path that was found for it. -/
theorem tryOpenLocalSource_path (hfs : fs.Lawful) (h : tryOpenLocalSource fs currentUid path = .ok (some opened)) :
    tryOpenLocalSource fs currentUid opened.path = .ok (some opened) ∧ isAbsolute opened.path = true := by
  obtain ⟨parent, name, canonicalParent, hparent, hname, hcanonical, hdirectory, hfile, hisFile, huid, hmode, hpath⟩ :=
    tryOpenLocalSource_iff.mp h
  obtain ⟨⟨names, hnames, rfl⟩, hagain⟩ := hfs parent canonicalParent hcanonical
  have hisName := isName_of_fileName hname
  have habsolute : opened.path = absolutePath (names ++ [name]) := by rw [hpath, join_absolutePath hnames hisName]
  obtain ⟨hparent', hname'⟩ := parent_absolutePath hnames hisName
  constructor
  · refine tryOpenLocalSource_iff.mpr ⟨absolutePath names, name, absolutePath names, ?_, ?_, hagain, hdirectory, hfile, hisFile,
      huid, hmode, hpath⟩
    · rw [habsolute, hparent']
    · rw [habsolute, hname']
  · rw [habsolute]
    exact isAbsolute_absolutePath _

end Local

/-! ## What is stored -/

section Stored

variable {store : ImageStore} {image : String} {sourceBase : OsString} {r : ResolvedImageSource}

/-- How an image without a supplied checksum was resolved. -/
inductive Resolved (store : ImageStore) : ResolvedImageSource → Prop
  | url {value url} : parseHttpsUrl store.parser value = some url → Resolved store (store.urlSource url none)
  | local {path opened sourceRef} : tryOpenLocalSource store.fileSystem store.currentUid path = .ok (some opened) →
      opened.path.toStr = some sourceRef → Resolved store (store.localSource sourceRef opened)
  | oci {reference} : Oci.References.Canonical reference → Resolved store (store.ociSource reference)
  | catalog {value resolved source} : store.catalog.resolve value store.architecture.asStr = .ok resolved →
      store.catalogSource resolved = .ok source → Resolved store source

theorem resolve_resolved (h : store.resolve image none sourceBase = .ok r) : Resolved store r := by
  rw [ImageStore.resolve] at h
  obtain ⟨path, _, h⟩ := Res.bind_ok h
  obtain ⟨opened, hopened, h⟩ := Res.bind_ok h
  split at h
  · rw [ImageStore.resolveLocal, if_neg (by decide)] at h
    split at h
    · rename_i hstr
      cases h
      exact .local hopened hstr
    · cases h
  · split at h
    · rename_i hurl
      cases h
      exact .url hurl
    · obtain ⟨oci, hoci, h⟩ := Res.bind_ok h
      split at h
      · cases h
        exact .oci (classifyOciReference_ok hoci)
      · rw [ImageStore.resolveCatalog, if_neg (by decide)] at h
        split at h
        · rename_i hcatalog
          exact .catalog hcatalog h
        · split at h <;> cases h

theorem catalogSource_sourceRef {resolved : ResolvedCatalogEntry} (h : store.catalogSource resolved = .ok r) :
    r.sourceRef = resolved.canonicalReference := by
  unfold ImageStore.catalogSource at h
  split at h
  · cases h
  · cases h
    rfl

/-- A reference that is resolved by the catalog has no slash in its canonical form. -/
theorem slash_notMem_canonicalReference (hvalid : store.catalog.Valid) {value : String} {resolved : ResolvedCatalogEntry}
    (h : store.catalog.resolve value store.architecture.asStr = .ok resolved) :
    '/' ∉ resolved.canonicalReference.toList := by
  unfold Catalog.resolve at h
  split at h
  · cases h
  · rename_i entry hfind
    split at h
    · cases h
    · cases h
      have hnamed := hvalid.wellNamed entry (Catalog.mem_of_find hfind)
      have hdistro := (notMem_of_isReferenceComponent hnamed.distro).2.1
      have hversion := (notMem_of_isReferenceComponent hnamed.version).2.1
      simp [CatalogEntry.canonicalReference, hdistro, hversion]

/-- The source as the generations of the store have it, where locations are texts. -/
def ResolvedImageSource.generations (source : ResolvedImageSource) : Generations.ResolvedImageSource where
  sourceRef := source.sourceRef
  sourceUrl := source.sourceUrl
  architecture := source.architecture
  sourceFormat := source.sourceFormat
  firmware := source.firmware
  sshdPath := source.sshdPath
  verification := source.verification
  location := match source.location with
    | .https url => .https url
    | .local path => .local path.display
    | .oci reference => .oci reference.text
  checksum := source.checksum

/-- A source that was resolved is that of one of the kinds of references. -/
theorem Resolved.generations (h : Resolved store r) :
    ∃ ref, Generations.resolve store.architecture ref none = .ok r.generations := by
  cases h with
  | @url _ url hurl => exact ⟨.url url.text, rfl⟩
  | @«local» _ opened sourceRef hopened hstr =>
    have hdisplay : opened.path.display = sourceRef := by rw [OsString.ofString_of_toStr hstr, OsString.display_ofString]
    subst hdisplay
    exact ⟨.path opened.path.display, rfl⟩
  | @oci reference hcanonical => exact ⟨.oci reference.text, rfl⟩
  | @catalog _ resolved _ hresolved hsource =>
    unfold ImageStore.catalogSource at hsource
    split at hsource
    · cases hsource
    · rename_i url hurl
      cases hsource
      refine ⟨.catalog ⟨resolved.canonicalReference, url.text, resolved.source.checksum, resolved.checksumAlgorithm,
        resolved.format, resolved.firmware, resolved.sshdPath⟩, ?_⟩
      cases resolved.source.checksum with
      | sha256 digest => rfl
      | manifestUrl manifest => rfl

/-- Every way in which an image was resolved is taken again for its stored reference. -/
theorem Resolved.persisted (h : Resolved store r) (hvalid : store.catalog.Valid) (hparser : store.parser.Lawful)
    (hfs : store.fileSystem.Lawful) : store.resolvePersisted r.sourceRef = .ok r := by
  unfold ImageStore.resolvePersisted
  cases h with
  | @url _ url hurl =>
    have hagain : parseHttpsUrl store.parser (store.urlSource url none).sourceRef = some url := parseHttpsUrl_text hparser hurl
    rw [hagain]
  | @«local» _ opened sourceRef hopened hstr =>
    obtain ⟨hagain, habsolute⟩ := tryOpenLocalSource_path hfs hopened
    have hpath : opened.path = OsString.ofString sourceRef := OsString.ofString_of_toStr hstr
    rw [hpath] at hagain habsolute
    have hurl : parseHttpsUrl store.parser (store.localSource sourceRef opened).sourceRef = none := by
      refine parseHttpsUrl_none hparser ?_
      obtain ⟨rest, hrest⟩ : ∃ rest, sourceRef.toList = '/' :: rest := by
        rw [isAbsolute_ofString] at habsolute
        exact List.head?_eq_some_iff.mp habsolute
      rintro ⟨after, hafter⟩
      change _ = sourceRef.toList.map asciiLower at hafter
      rw [hrest] at hafter
      exact absurd (List.cons.inj hafter).1 (by decide)
    have hdisplay : opened.path.display = sourceRef := by rw [hpath, OsString.display_ofString]
    rw [hurl]
    change (if isAbsolute (OsString.ofString sourceRef) = true then _ else _) = _
    rw [if_pos habsolute]
    change (tryOpenLocalSource store.fileSystem store.currentUid (OsString.ofString sourceRef) >>= _) = _
    rw [hagain, ← hdisplay]
    rfl
  | @oci reference hcanonical =>
    obtain ⟨hurl, habsolute⟩ := text_not_url hparser hcanonical
    change (match parseHttpsUrl store.parser reference.text with | some _ => _ | none => _) = _
    rw [hurl]
    change (if isAbsolute (OsString.ofString reference.text) = true then _ else _) = _
    rw [habsolute, if_neg Bool.false_ne_true]
    change (classifyOciReference reference.text >>= _) = _
    rw [classifyOciReference_text hcanonical]
    rfl
  | @catalog _ resolved _ hresolved hsource =>
    have hslash := slash_notMem_canonicalReference hvalid hresolved
    obtain ⟨hurl, habsolute, hoci⟩ := plain_of_no_slash hparser hslash
    rw [catalogSource_sourceRef hsource, hurl, habsolute, hoci]
    change (store.catalog.resolve resolved.canonicalReference store.architecture.asStr >>= _) = _
    rw [Catalog.resolve_canonical hvalid hresolved]
    exact hsource

/-- **A stored reference resolves to the source that the image had.** -/
theorem resolvePersisted_resolve {documents : List CatalogDocument}
    (hcatalog : Catalog.load store.parser documents = .ok store.catalog) (hparser : store.parser.Lawful)
    (hfs : store.fileSystem.Lawful) (h : store.resolve image none sourceBase = .ok r) :
    store.resolvePersisted r.sourceRef = .ok r :=
  (resolve_resolved h).persisted (load_valid hcatalog) hparser hfs

end Stored

/-! ## A release of a catalog -/

def sampleParser : UrlParser := fun value =>
  if value = "https://e/i" ∨ value = "https://e/s" then
    some (⟨value, "https", true, "", none, "e", none⟩, false)
  else if value = "t:1" then some (⟨value, "t", false, "", none, "", none⟩, false)
  else none

theorem sampleParser_lawful : sampleParser.Lawful := by
  have hcases : ∀ value url, sampleParser value = some (url, false) → url.scheme = "https" →
      (value = "https://e/i" ∨ value = "https://e/s") ∧ url = ⟨value, "https", true, "", none, "e", none⟩ := by
    intro value url h hscheme
    unfold sampleParser at h
    split at h
    · rename_i hvalue
      cases h
      exact ⟨hvalue, rfl⟩
    · split at h
      · cases h
        exact absurd hscheme (show "t" ≠ "https" by decide)
      · cases h
  refine ⟨fun value url h hscheme => ?_, fun value url h hscheme => ?_, fun value url h hscheme => ?_⟩
  · obtain ⟨hvalue, rfl⟩ := hcases value url h hscheme
    exact if_pos hvalue
  · obtain ⟨hvalue | hvalue, rfl⟩ := hcases value url h hscheme
    · subst hvalue
      simp [isWhitespace]
    · subst hvalue
      simp [isWhitespace]
  · obtain ⟨hvalue | hvalue, rfl⟩ := hcases value url h hscheme
    · subst hvalue
      decide
    · subst hvalue
      decide

/-- An empty directory. -/
def sampleFileSystem : FileSystem where
  canonicalize path := if path = absolutePath [[.char 'b']] then .ok path else .error .notFound
  openDirectory _ := .ok ()
  openFile _ _ := .error .notFound

theorem sampleFileSystem_lawful : sampleFileSystem.Lawful := by
  intro path canonical h
  have hpath : path = absolutePath [[.char 'b']] ∧ path = canonical := by
    change (if path = absolutePath [[.char 'b']] then Except.ok path else Except.error IoError.notFound) = _ at h
    split at h
    · rename_i heq
      cases h
      exact ⟨heq, rfl⟩
    · cases h
  obtain ⟨rfl, rfl⟩ := hpath
  refine ⟨⟨[[.char 'b']], fun name hname => ?_, rfl⟩, rfl⟩
  rw [List.mem_singleton.mp hname]
  exact ⟨by decide, by decide, by decide, by decide⟩

def sampleDocuments : List CatalogDocument :=
  [⟨"built-in catalog",
    [⟨"t", "1", ["s"], true, .edk2, .qcow2, none, [("x86_64", ⟨"https://e/i", some "https://e/s", none, none, .sha512⟩)]⟩], false⟩]

def sampleStore : ImageStore where
  catalog := ⟨[("t:1", ⟨"t", "1", ["s"], true, .edk2, .qcow2, none,
    [("x86_64", ⟨"https://e/i", .manifestUrl "https://e/s", .sha512, none⟩)]⟩)]⟩
  architecture := .x86_64
  homeDir := none
  currentUid := 1000
  parser := sampleParser
  fileSystem := sampleFileSystem

/-- The default release of a distribution, stored under its version. -/
theorem resolvePersisted_default : ∃ r, sampleStore.resolve "t" none [sep, .char 'b'] = .ok r ∧ r.sourceRef = "t:1" ∧
    sampleStore.resolvePersisted r.sourceRef = .ok r := by
  obtain ⟨r, hr, href⟩ := Res.exists_ok_any (x := sampleStore.resolve "t" none [sep, .char 'b'])
    (p := fun r => r.sourceRef = "t:1") (by decide)
  exact ⟨r, hr, of_decide_eq_true href,
    @resolvePersisted_resolve sampleStore _ _ _ sampleDocuments (by decide) sampleParser_lawful sampleFileSystem_lawful hr⟩

end Firestone.Image.Sources
