import Firestone.Lib.Members
import Firestone.Lib.Runs
import Firestone.State
import Mathlib.Data.String.Basic

/-!
# Generations of stored images

Each stored image carries a generation, counted for its source reference and architecture. A pull that publishes an
image, or strengthens the sidecar of one already stored, takes the next generation; a machine without a pinned image
takes the image with the highest.

* `pullLocked` — a pull, against whatever content it meets upstream.
* `findLatestForSource`, `findLatestByCanonicalRef` — what `prepare_machine_image` selects.
* `reachable_latestWins` — the last pull is what gets selected, and generations are distinct, in runs where no pull
  meets content that an older generation holds (`Current`).

A sidecar holds the algorithm and the digest of its verification both or not at all, so they are one field here. The
identity hash and the check of a sidecar before it is written are parameters: nothing depends on them.
-/

namespace Firestone.Image.Generations

open Firestone.Lib

/-! ## Sidecars and sources -/

inductive ImageFormat
  | qcow2 | raw
  deriving DecidableEq, Repr

inductive ImageKind
  | disk | oci
  deriving DecidableEq, Repr

inductive CatalogFirmware
  | rhf | edk2
  deriving DecidableEq, Repr

inductive ChecksumAlgorithm
  | sha256 | sha512
  deriving DecidableEq, Repr

structure ImageVerification where
  algorithm : ChecksumAlgorithm
  digest : String
  deriving DecidableEq, Repr

/-- The contents of an image sidecar. -/
structure ImageMetadata where
  id : String
  kind : ImageKind
  generation : Nat
  sourceRef : String
  sourceUrl : Option String
  sourceSha256 : String
  storedSha256 : String
  architecture : Arch
  firmware : Option CatalogFirmware
  sshdPath : Option String
  sourceFormat : ImageFormat
  verification : Option ImageVerification
  size : Nat
  pulledAt : String
  deriving DecidableEq, Repr

/-- A sidecar and the digest of the base beside it. -/
structure StoredImage where
  metadata : ImageMetadata
  baseSha256 : String
  deriving DecidableEq, Repr

/-- The complete pairs of the store, in id order. -/
abbrev Images := List (String × StoredImage)

inductive ExpectedChecksum
  | none
  | digest (verification : ImageVerification)
  | manifest (url : String) (algorithm : ChecksumAlgorithm)
  deriving DecidableEq, Repr

inductive ImageSourceLocation
  | https (url : String)
  | local (path : String)
  | oci (reference : String)
  deriving DecidableEq, Repr

/-- A reference resolved for one architecture. -/
structure ResolvedImageSource where
  sourceRef : String
  sourceUrl : Option String
  architecture : Arch
  sourceFormat : Option ImageFormat
  firmware : Option CatalogFirmware
  sshdPath : Option String
  verification : Option ImageVerification
  location : ImageSourceLocation
  checksum : ExpectedChecksum
  deriving DecidableEq, Repr

inductive CatalogChecksum
  | sha256 (digest : String)
  | manifestUrl (url : String)
  deriving DecidableEq, Repr

/-- An image of the catalog. -/
structure ResolvedCatalogImage where
  canonicalReference : String
  url : String
  checksum : CatalogChecksum
  checksumAlgorithm : ChecksumAlgorithm
  format : ImageFormat
  firmware : CatalogFirmware
  sshdPath : Option String
  deriving DecidableEq, Repr

/-- The kinds of image references, told apart by how they are written and what the catalog knows. -/
inductive ImageRef
  | url (url : String)
  | path (path : String)
  | oci (reference : String)
  | catalog (image : ResolvedCatalogImage)
  deriving DecidableEq, Repr

def catalogChecksum (image : ResolvedCatalogImage) : ExpectedChecksum :=
  match image.checksum with
  | .sha256 digest => .digest ⟨.sha256, digest⟩
  | .manifestUrl url => .manifest url image.checksumAlgorithm

/-- A digest in the catalog is what the image is verified against. -/
def catalogVerification (image : ResolvedCatalogImage) : Option ImageVerification :=
  match image.checksum with
  | .sha256 digest => some ⟨.sha256, digest⟩
  | .manifestUrl _ => none

/-- `resolve_persisted`: the source of a reference that is stored with a machine. -/
def resolvePersisted (architecture : Arch) : ImageRef → ResolvedImageSource
  | .url url => ⟨url, some url, architecture, none, none, none, none, .https url, .none⟩
  | .path path => ⟨path, none, architecture, none, none, none, none, .local path, .none⟩
  | .oci reference => ⟨reference, none, architecture, none, none, none, none, .oci reference, .none⟩
  | .catalog image =>
    ⟨image.canonicalReference, some image.url, architecture, some image.format, some image.firmware, image.sshdPath,
      catalogVerification image, .https image.url, catalogChecksum image⟩

/-- `resolve`: a pull may add a checksum to a URL, and to nothing else. -/
def resolve (architecture : Arch) (ref : ImageRef) : Option String → Res ResolvedImageSource
  | none => .ok (resolvePersisted architecture ref)
  | some sha256 =>
    match ref with
    | .url _ => .ok
        { resolvePersisted architecture ref with
          verification := some ⟨.sha256, sha256⟩, checksum := .digest ⟨.sha256, sha256⟩ }
    | .path _ => .error <| (FirestoneError.new .usage "--sha256 is accepted only for HTTPS image URLs").withHint
        "remove --sha256 when pulling a local file"
    | .oci reference => .error <| (FirestoneError.new .usage
        ("--sha256 is not accepted for OCI image reference '" ++ reference ++ "'")).withHint
        "pin an OCI image with a repo@sha256:… digest reference instead of --sha256"
    | .catalog _ => .error <| (FirestoneError.new .usage "--sha256 is accepted only for HTTPS image URLs").withHint
        "use a strict https:// URL or remove --sha256"

/-- What a pull meets upstream: the digest the checksum manifest has for the image, the digests and the format of the
bytes (of the manifest, for an OCI image), the base made of them, and the time. -/
structure Upstream where
  manifest : Res String
  sha256 : String
  sha512 : String
  format : ImageFormat
  storedSha256 : String
  size : Nat
  now : String

/-! ## Lookups -/

def u64Max : Nat := 2 ^ 64 - 1

def ImageMetadata.sourceIs (m : ImageMetadata) (sourceRef : String) (architecture : Arch) : Bool :=
  m.sourceRef = sourceRef && m.architecture = architecture

/-- `list_locked`. -/
def listLocked (images : Images) : List StoredImage := images.map Prod.snd

/-- `verify_stored_pair`. -/
def verifyStoredPair (stored : StoredImage) : Res StoredImage :=
  if stored.baseSha256 = stored.metadata.storedSha256 then .ok stored
  else .error <| (FirestoneError.new .checksum
    ("stored image `" ++ stored.metadata.id ++ "` does not match stored_sha256")).withHint
      "remove the corrupted image and pull it again"

def ambiguousGeneration (sourceRef : String) (maximum : Nat) : FirestoneError :=
  (FirestoneError.new .conflict
    ("image source '" ++ sourceRef ++ "' has ambiguous generation " ++ toString maximum)).withHint
      "move duplicate image sidecars aside and retry"

/-- The one image of the highest generation among those that match. -/
def findLatest (images : Images) (sourceRef : String) (matching : ImageMetadata → Bool) : Res (Option StoredImage) :=
  let found := (listLocked images).filter fun stored => matching stored.metadata
  match (found.map fun stored => stored.metadata.generation).max? with
  | none => .ok none
  | some maximum =>
    match found.filter fun stored => stored.metadata.generation = maximum with
    | [stored] => (verifyStoredPair stored).map some
    | _ => .error (ambiguousGeneration sourceRef maximum)

/-- `metadata_matches_cache_source`. -/
def metadataMatchesCacheSource (m : ImageMetadata) (source : ResolvedImageSource) : Bool :=
  m.sourceIs source.sourceRef source.architecture &&
    (source.sourceFormat.all fun format => format = m.sourceFormat) &&
    match source.checksum with
    | .none => m.sourceUrl = source.sourceUrl
    | .digest verification => m.sourceUrl = source.sourceUrl && m.verification = some verification
    | .manifest _ algorithm => m.verification.any fun v => v.algorithm = algorithm

def findLatestForSource (images : Images) (source : ResolvedImageSource) : Res (Option StoredImage) :=
  findLatest images source.sourceRef fun m => metadataMatchesCacheSource m source

def findLatestByCanonicalRef (images : Images) (sourceRef : String) (architecture : Arch) : Res (Option StoredImage) :=
  findLatest images sourceRef fun m => m.sourceIs sourceRef architecture

/-- `metadata_matches_source`, with the verification required. -/
def metadataMatchesSource (m : ImageMetadata) (source : ResolvedImageSource) : Bool :=
  m.sourceIs source.sourceRef source.architecture && m.sourceUrl = source.sourceUrl && m.firmware = source.firmware &&
    m.sshdPath = source.sshdPath && (source.sourceFormat.all fun format => format = m.sourceFormat) &&
    m.verification = source.verification

def findExactCache (images : Images) (source : ResolvedImageSource) : Res (Option StoredImage) :=
  match (listLocked images).filter fun stored => metadataMatchesSource stored.metadata source with
  | [] => .ok none
  | [stored] => (verifyStoredPair stored).map some
  | _ => .error <| (FirestoneError.new .conflict
      ("image source '" ++ source.sourceRef ++ "' has multiple cache entries for the same complete checksum")).withHint
        "inspect and remove the duplicate image entry"

def nextGeneration (images : Images) (sourceRef : String) (architecture : Arch) : Res Nat :=
  let generations := ((listLocked images).filter fun stored => stored.metadata.sourceIs sourceRef architecture).map
    fun stored => stored.metadata.generation
  match generations.max? with
  | none => .ok 1
  | some maximum =>
    if generations.count maximum ≠ 1 then .error (ambiguousGeneration sourceRef maximum)
    else if maximum < u64Max then .ok (maximum + 1)
    else .error <| (FirestoneError.new .conflict ("image source '" ++ sourceRef ++ "' generation overflow")).withHint
      "move obsolete image generations aside and retry"

/-! ## Pulls -/

section pull

variable (stableImageId : String → Option String → Arch → String → String) (validate : ImageMetadata → Res Unit)

/-- `resolve_expected_checksum`. -/
def resolveExpectedChecksum (source : ResolvedImageSource) (up : Upstream) : Res ResolvedImageSource :=
  match source.checksum with
  | .none => .ok { source with verification := none }
  | .digest verification => .ok { source with verification := some verification }
  | .manifest _ algorithm => do
    let digest ← up.manifest
    .ok { source with verification := some ⟨algorithm, digest⟩ }

def verifyStagedSource (source : ResolvedImageSource) (up : Upstream) : Res Unit :=
  match source.verification with
  | none => .ok ()
  | some verification =>
    let actual := match verification.algorithm with
      | .sha256 => up.sha256
      | .sha512 => up.sha512
    if actual = verification.digest then .ok ()
    else .error <| (FirestoneError.new .checksum ("checksum mismatch for '" ++ source.sourceRef ++ "': expected " ++
      verification.digest ++ ", got " ++ actual)).withHint
        "retry the pull; if it fails again, refresh the catalog checksum"

/-- What a repeated pull of the same content changes in the sidecar: it may strengthen the verification and follow the
catalog. -/
def refreshed (m : ImageMetadata) (source : ResolvedImageSource) : ImageMetadata :=
  { m with
    verification := source.verification.or m.verification
    firmware := source.firmware.or m.firmware
    sshdPath := if source.sourceFormat.isSome then source.sshdPath else m.sshdPath }

def collisionError (id : String) : FirestoneError :=
  (FirestoneError.new .conflict ("image id `" ++ id ++ "` collides with different immutable metadata")).withHint
    "move the conflicting image files aside and retry"

/-- `existing_identity`. -/
def existingIdentity (images : Images) (id : String) (source : ResolvedImageSource) (sourceSha256 : String)
    (sourceFormat : ImageFormat) (now : String) : Res (Option (Images × StoredImage)) :=
  match images.lookup id with
  | none => .ok none
  | some stored => do
    let stored ← verifyStoredPair stored
    let m := stored.metadata
    if m.sourceIs source.sourceRef source.architecture && m.sourceUrl = source.sourceUrl &&
        m.sourceSha256 = sourceSha256 && m.sourceFormat = sourceFormat then
      if refreshed m source = m then .ok (some (images, stored))
      else do
        let generation ← nextGeneration images source.sourceRef source.architecture
        let m := { refreshed m source with generation := generation, pulledAt := now }
        validate m
        .ok (some (insertMember id { stored with metadata := m } images, { stored with metadata := m }))
    else .error (collisionError id)

/-- Publishing a new pair under the next generation. -/
def publish (images : Images) (m : ImageMetadata) : Res (Images × StoredImage) := do
  let generation ← nextGeneration images m.sourceRef m.architecture
  let m := { m with generation := generation }
  validate m
  .ok (insertMember m.id ⟨m, m.storedSha256⟩ images, ⟨m, m.storedSha256⟩)

/-- The sidecar of a new OCI image, before it has its generation. -/
def ociMetadata (id : String) (source : ResolvedImageSource) (up : Upstream) : ImageMetadata :=
  { id := id, kind := .oci, generation := 0, sourceRef := source.sourceRef, sourceUrl := none,
    sourceSha256 := up.sha256, storedSha256 := up.storedSha256, architecture := source.architecture, firmware := none,
    sshdPath := none, sourceFormat := .raw, verification := some ⟨.sha256, up.sha256⟩, size := up.size,
    pulledAt := up.now }

/-- The sidecar of a new disk image, before it has its generation. -/
def diskMetadata (id : String) (source : ResolvedImageSource) (up : Upstream) : ImageMetadata :=
  { id := id, kind := .disk, generation := 0, sourceRef := source.sourceRef, sourceUrl := source.sourceUrl,
    sourceSha256 := up.sha256, storedSha256 := if up.format = .qcow2 then up.sha256 else up.storedSha256,
    architecture := source.architecture, firmware := source.firmware, sshdPath := source.sshdPath,
    sourceFormat := up.format, verification := source.verification, size := up.size, pulledAt := up.now }

/-- `pull_oci_locked`, where `up.sha256` is the digest of the manifest. -/
def pullOciLocked (images : Images) (source : ResolvedImageSource) (up : Upstream) : Res (Images × StoredImage) := do
  let id := stableImageId source.sourceRef none source.architecture up.sha256
  match ← existingIdentity validate images id source up.sha256 .raw up.now with
  | some cached => .ok cached
  | none => publish validate images (ociMetadata id source up)

def formatError (source : ResolvedImageSource) : FirestoneError :=
  (FirestoneError.new .checksum ("image '" ++ source.sourceRef ++ "' declared a format its bytes do not have")).withHint
    "fix the catalog format or source URL"

/-- A pull of a disk image once its source is staged. -/
def pullStaged (images : Images) (source : ResolvedImageSource) (up : Upstream) : Res (Images × StoredImage) := do
  verifyStagedSource source up
  if source.sourceFormat.getD up.format ≠ up.format then .error (formatError source)
  else do
    let id := stableImageId source.sourceRef source.sourceUrl source.architecture up.sha256
    match ← existingIdentity validate images id source up.sha256 up.format up.now with
    | some cached => .ok cached
    | none => publish validate images (diskMetadata id source up)

/-- `pull_locked`: the store after the pull and the image it returns. -/
def pullLocked (images : Images) (source : ResolvedImageSource) (up : Upstream) : Res (Images × StoredImage) :=
  match source.location with
  | .oci _ => pullOciLocked stableImageId validate images source up
  | _ => do
    let source ← resolveExpectedChecksum source up
    match ← (if source.verification.isSome then findExactCache images source else .ok none) with
    | some cached => .ok (images, cached)
    | none => pullStaged stableImageId validate images source up

/-! ## Runs -/

variable (architecture : Arch)

/-- The store, and for each canonical reference the last pull of it and the image that pull returned, if it is not
removed since. -/
structure State where
  images : Images
  last : String → Option (ImageRef × String)

inductive Action
  | pull (ref : ImageRef) (sha256 : Option String) (up : Upstream)
  | remove (id : String)

/-- A pull that succeeds, or the removal of a stored image. -/
def step (s : State) : Action → Option State
  | .pull ref sha256 up =>
    match (do pullLocked stableImageId validate s.images (← resolve architecture ref sha256) up) with
    | .ok (images, stored) =>
      some ⟨images, Function.update s.last (resolvePersisted architecture ref).sourceRef
        (some (ref, stored.metadata.id))⟩
    | .error _ => none
  | .remove id =>
    if (s.images.lookup id).isSome then
      some ⟨eraseMember id s.images, fun sourceRef => (s.last sourceRef).filter fun x => x.2 ≠ id⟩
    else none

/-- `prepare_machine_image` of a machine without a pinned image selects `id`, whether its reference resolves or not. -/
def Selects (images : Images) (ref : ImageRef) (id : String) : Prop :=
  (∃ stored, findLatestForSource images (resolvePersisted architecture ref) = .ok (some stored) ∧
    stored.metadata.id = id) ∧
  ∃ stored, findLatestByCanonicalRef images (resolvePersisted architecture ref).sourceRef architecture =
    .ok (some stored) ∧ stored.metadata.id = id

/-- The last pull of each reference is selected, and no two images of one reference and architecture share a
generation. -/
structure LatestWins (s : State) : Prop where
  selected : ∀ sourceRef ref id, s.last sourceRef = some (ref, id) → Selects architecture s.images ref id
  distinct : ∀ id₁ id₂ x₁ x₂, s.images.lookup id₁ = some x₁ → s.images.lookup id₂ = some x₂ →
    x₁.metadata.sourceRef = x₂.metadata.sourceRef → x₁.metadata.architecture = x₂.metadata.architecture →
    x₁.metadata.generation = x₂.metadata.generation → id₁ = id₂

/-- The image has the highest generation of its reference and architecture. -/
def Highest (images : Images) (m : ImageMetadata) : Prop :=
  ∀ id stored, images.lookup id = some stored → stored.metadata.sourceIs m.sourceRef m.architecture →
    stored.metadata.generation ≤ m.generation

/-- The stored image holds the content the pull meets: its bytes, or bytes that passed the same check. -/
def HoldsContent (m : ImageMetadata) (source : ResolvedImageSource) (up : Upstream) : Prop :=
  m.sourceIs source.sourceRef source.architecture ∧ m.sourceUrl = source.sourceUrl ∧
    (m.sourceSha256 = up.sha256 ∨ (source.verification.isSome ∧ m.verification = source.verification))

/-- The condition on a pull: what it meets is not stored yet, or is stored with the highest generation, or the pull
changes its sidecar. -/
def Current (s : State) : Action → Prop
  | .pull ref sha256 up => ∀ source checked, resolve architecture ref sha256 = .ok source →
      resolveExpectedChecksum source up = .ok checked → ∀ id stored, s.images.lookup id = some stored →
        HoldsContent stored.metadata checked up →
          Highest s.images stored.metadata ∨ refreshed stored.metadata checked ≠ stored.metadata
  | .remove _ => True

/-- A store whose images are keyed by their ids and intact, with distinct generations, and no pull yet. -/
structure Initial (s : State) : Prop where
  none : ∀ sourceRef, s.last sourceRef = none
  sorted : MembersSorted s.images
  keyed : ∀ id stored, s.images.lookup id = some stored → stored.metadata.id = id
  intact : ∀ id stored, s.images.lookup id = some stored → stored.baseSha256 = stored.metadata.storedSha256
  distinct : ∀ id₁ id₂ x₁ x₂, s.images.lookup id₁ = some x₁ → s.images.lookup id₂ = some x₂ →
    x₁.metadata.sourceRef = x₂.metadata.sourceRef → x₁.metadata.architecture = x₂.metadata.architecture →
    x₁.metadata.generation = x₂.metadata.generation → id₁ = id₂

end pull

/-! ## Lookups, seen from the keys -/

section lookups

variable {images : Images} {sourceRef : String} {architecture : Arch} {id : String} {x : StoredImage} {n : Nat}

theorem mem_listLocked (hx : images.lookup id = some x) : x ∈ listLocked images :=
  List.mem_map.mpr ⟨(id, x), mem_of_lookup hx, rfl⟩

theorem exists_lookup (hs : MembersSorted images) (hx : x ∈ listLocked images) :
    ∃ id, images.lookup id = some x := by
  obtain ⟨⟨id, y⟩, hm, rfl⟩ := List.mem_map.mp hx
  exact ⟨id, lookup_of_mem hs hm⟩

theorem verifyStoredPair_ok {y : StoredImage} (h : verifyStoredPair x = .ok y) : y = x := by
  unfold verifyStoredPair at h
  split at h <;> cases h
  rfl

/-- The next generation is above every generation of its reference and architecture. -/
theorem nextGeneration_gt (h : nextGeneration images sourceRef architecture = .ok n)
    (hx : images.lookup id = some x) (hsource : x.metadata.sourceIs sourceRef architecture) :
    x.metadata.generation < n := by
  have hmem : x.metadata.generation ∈ ((listLocked images).filter fun stored =>
      stored.metadata.sourceIs sourceRef architecture).map fun stored => stored.metadata.generation :=
    List.mem_map.mpr ⟨x, List.mem_filter.mpr ⟨mem_listLocked hx, hsource⟩, rfl⟩
  unfold nextGeneration at h
  dsimp only at h
  split at h
  · rename_i hnone
    rw [List.max?_eq_none_iff.mp hnone] at hmem
    cases hmem
  · rename_i maximum hmax
    have hle : x.metadata.generation ≤ maximum := (List.max?_eq_some_iff.mp hmax).2 _ hmem
    split at h
    · cases h
    · split at h <;> cases h
      omega

/-- An intact image above all others that match is the latest. -/
theorem findLatest_eq {matching : ImageMetadata → Bool} (hs : MembersSorted images) (hx : images.lookup id = some x)
    (hmatch : matching x.metadata) (hintact : x.baseSha256 = x.metadata.storedSha256)
    (habove : ∀ id' y, images.lookup id' = some y → matching y.metadata → id' ≠ id →
      y.metadata.generation < x.metadata.generation) : findLatest images sourceRef matching = .ok (some x) := by
  have hfound : ∀ y, y ∈ (listLocked images).filter (fun stored => matching stored.metadata) →
      y = x ∨ y.metadata.generation < x.metadata.generation := by
    intro y hy
    obtain ⟨hy, hym⟩ := List.mem_filter.mp hy
    obtain ⟨id', hid'⟩ := exists_lookup hs hy
    by_cases he : id' = id
    · subst he
      exact .inl (Option.some.inj (hid'.symm.trans hx))
    · exact .inr (habove id' y hid' hym he)
  have hxfound : x ∈ (listLocked images).filter fun stored => matching stored.metadata :=
    List.mem_filter.mpr ⟨mem_listLocked hx, hmatch⟩
  have hmax : (((listLocked images).filter fun stored => matching stored.metadata).map
      fun stored => stored.metadata.generation).max? = some x.metadata.generation := by
    refine List.max?_eq_some_iff.mpr ⟨List.mem_map.mpr ⟨x, hxfound, rfl⟩, fun g hg => ?_⟩
    obtain ⟨y, hy, rfl⟩ := List.mem_map.mp hg
    rcases hfound y hy with rfl | hlt
    · exact le_rfl
    · exact hlt.le
  have hone : (((listLocked images).filter fun stored => matching stored.metadata).filter
      fun stored => stored.metadata.generation = x.metadata.generation) = [x] := by
    have hpair : (images.filter fun e => matching e.2.metadata && e.2.metadata.generation = x.metadata.generation) =
        [(id, x)] := by
      refine eq_singleton_of_mem (hs.nodup.filter _) (List.mem_filter.mpr ⟨mem_of_lookup hx, by simpa using hmatch⟩) ?_
      rintro ⟨id', y⟩ hy
      obtain ⟨hy, hym⟩ := List.mem_filter.mp hy
      simp only [Bool.and_eq_true, decide_eq_true_eq] at hym
      have hid' := lookup_of_mem hs hy
      by_cases he : id' = id
      · subst he
        rw [Option.some.inj (hid'.symm.trans hx)]
      · exact absurd hym.2 (habove id' y hid' hym.1 he).ne
    rw [listLocked, List.filter_filter, List.filter_map]
    simp only [Function.comp_def, Bool.and_comm] at hpair ⊢
    rw [hpair]
    rfl
  unfold findLatest
  simp only [hmax, hone, verifyStoredPair, hintact, if_true]
  rfl

end lookups

/-! ## What a pull does -/

/-- The sidecar fits the source: a lookup for the source finds it. -/
structure Fits (m : ImageMetadata) (source : ResolvedImageSource) : Prop where
  sourceIs : m.sourceIs source.sourceRef source.architecture = true
  url : m.sourceUrl = source.sourceUrl
  format : (source.sourceFormat.all fun format => format = m.sourceFormat) = true
  verification : source.verification.isSome → m.verification = source.verification

/-- The effect of a pull that returns `stored`: the store is as it was, and `stored` holds the content met and is not
changed by the source; or `stored` is put in with a generation above all others. -/
inductive Pulled (images : Images) (source : ResolvedImageSource) (up : Upstream) : Images → StoredImage → Prop
  | cached {id : String} {stored : StoredImage} (hx : images.lookup id = some stored)
      (hfits : Fits stored.metadata source) (hcontent : HoldsContent stored.metadata source up)
      (hsame : refreshed stored.metadata source = stored.metadata) : Pulled images source up images stored
  | put {id : String} {stored : StoredImage} {n : Nat} (hid : stored.metadata.id = id) (hfits : Fits stored.metadata source)
      (hintact : stored.baseSha256 = stored.metadata.storedSha256)
      (hnext : nextGeneration images source.sourceRef source.architecture = .ok n)
      (hgen : stored.metadata.generation = n)
      (hold : ∀ old, images.lookup id = some old → old.metadata.sourceIs source.sourceRef source.architecture) :
      Pulled images source up (insertMember id stored images) stored

section pulls

variable {stableImageId : String → Option String → Arch → String → String} {validate : ImageMetadata → Res Unit}
  {images images' : Images} {source : ResolvedImageSource} {up : Upstream} {stored : StoredImage} {id : String}

/-- Images are keyed by their ids and intact. -/
structure Sound (images : Images) : Prop where
  sorted : MembersSorted images
  keyed : ∀ id stored, images.lookup id = some stored → stored.metadata.id = id
  intact : ∀ id stored, images.lookup id = some stored → stored.baseSha256 = stored.metadata.storedSha256

theorem existingIdentity_pulled {format : ImageFormat} (hs : Sound images)
    (hformat : (source.sourceFormat.all fun f => f = format) = true)
    (h : existingIdentity validate images id source up.sha256 format up.now = .ok (some (images', stored))) :
    Pulled images source up images' stored := by
  unfold existingIdentity at h
  split at h
  · cases h
  rename_i old hold
  obtain ⟨y, hy, hrest⟩ := Res.bind_ok h
  obtain rfl := verifyStoredPair_ok hy
  clear h
  rename' hrest => h
  dsimp only at h
  split at h
  · rename_i himm
    simp only [Bool.and_eq_true, decide_eq_true_eq] at himm
    obtain ⟨⟨⟨hsrc, hurl⟩, hsha⟩, hfmt⟩ := himm
    have hfmt' : (source.sourceFormat.all fun f => f = y.metadata.sourceFormat) = true := by rw [hfmt]; exact hformat
    split at h
    · rename_i hsame
      cases h
      refine .cached hold ⟨hsrc, hurl, hfmt', fun hv => ?_⟩ ⟨hsrc, hurl, .inl hsha⟩ hsame
      obtain ⟨v, hv⟩ := Option.isSome_iff_exists.mp hv
      rw [← hsame, refreshed, hv]
      rfl
    · obtain ⟨n, hn, h⟩ := Res.bind_ok h
      obtain ⟨_, -, h⟩ := Res.bind_ok h
      cases h
      refine .put (hs.keyed id y hold) ?_ ?_ hn ?_ ?_
      · refine ⟨hsrc, hurl, hfmt', fun hv => ?_⟩
        obtain ⟨v, hv⟩ := Option.isSome_iff_exists.mp hv
        show source.verification.or y.metadata.verification = source.verification
        rw [hv]
        rfl
      · exact hs.intact _ y hold
      · rfl
      · intro old' hold'
        rw [← Option.some.inj (hold.symm.trans hold')]
        exact hsrc
  · cases h

theorem existingIdentity_none {format : ImageFormat} {sha now : String}
    (h : existingIdentity validate images id source sha format now = .ok none) : images.lookup id = none := by
  unfold existingIdentity at h
  split at h
  · assumption
  · obtain ⟨y, -, h⟩ := Res.bind_ok h
    dsimp only at h
    split at h
    · split at h
      · cases h
      · obtain ⟨n, -, h⟩ := Res.bind_ok h
        obtain ⟨_, -, h⟩ := Res.bind_ok h
        cases h
    · cases h

theorem publish_pulled {m : ImageMetadata} (hfits : Fits m source) (hnone : images.lookup m.id = none)
    (h : publish validate images m = .ok (images', stored)) : Pulled images source up images' stored := by
  unfold publish at h
  obtain ⟨n, hn, h⟩ := Res.bind_ok h
  obtain ⟨_, -, h⟩ := Res.bind_ok h
  cases h
  have hsrc := hfits.sourceIs
  simp only [ImageMetadata.sourceIs, Bool.and_eq_true, decide_eq_true_eq] at hsrc
  rw [hsrc.1, hsrc.2] at hn
  refine .put rfl ?_ ?_ hn ?_ ?_
  · exact ⟨hfits.sourceIs, hfits.url, hfits.format, hfits.verification⟩
  · rfl
  · rfl
  · intro old hold
    cases hnone.symm.trans hold

theorem pullStaged_pulled (hs : Sound images) (h : pullStaged stableImageId validate images source up = .ok (images', stored)) :
    Pulled images source up images' stored := by
  unfold pullStaged at h
  obtain ⟨_, -, h⟩ := Res.bind_ok h
  split at h
  · cases h
  rename_i hformat
  have hformat' : (source.sourceFormat.all fun f => f = up.format) = true := by
    cases hf : source.sourceFormat with
    | none => rfl
    | some f => simpa [hf] using hformat
  obtain ⟨cached, hcached, h⟩ := Res.bind_ok h
  cases cached with
  | some cached =>
    cases h
    exact existingIdentity_pulled hs hformat' hcached
  | none =>
    refine publish_pulled ⟨?_, rfl, hformat', fun _ => rfl⟩ (existingIdentity_none hcached) h
    simp [ImageMetadata.sourceIs, diskMetadata]

theorem pullOciLocked_pulled (hs : Sound images) (hurl : source.sourceUrl = none) (hformat : source.sourceFormat = none)
    (hver : source.verification = none)
    (h : pullOciLocked stableImageId validate images source up = .ok (images', stored)) :
    Pulled images source up images' stored := by
  unfold pullOciLocked at h
  obtain ⟨cached, hcached, h⟩ := Res.bind_ok h
  cases cached with
  | some cached =>
    cases h
    exact existingIdentity_pulled hs (by rw [hformat]; rfl) hcached
  | none =>
    refine publish_pulled ⟨?_, hurl.symm, by rw [hformat]; rfl, by simp [hver]⟩ (existingIdentity_none hcached) h
    simp [ImageMetadata.sourceIs, ociMetadata]

theorem findExactCache_pulled (hs : Sound images) (hver : source.verification.isSome)
    (h : findExactCache images source = .ok (some stored)) : Pulled images source up images stored := by
  unfold findExactCache at h
  split at h
  · cases h
  · rename_i x hx
    obtain ⟨hmem, hmatch⟩ := List.mem_filter.mp (hx ▸ List.mem_singleton_self x : x ∈ (listLocked images).filter _)
    obtain ⟨id, hid⟩ := exists_lookup hs.sorted hmem
    cases hy : verifyStoredPair x with
    | error e => simp [hy, Except.map] at h
    | ok y =>
      obtain rfl := verifyStoredPair_ok hy
      simp only [hy, Except.map, Except.ok.injEq, Option.some.injEq] at h
      subst h
      simp only [metadataMatchesSource, Bool.and_eq_true, decide_eq_true_eq] at hmatch
      obtain ⟨⟨⟨⟨⟨hsrc, hurl⟩, hfw⟩, hsshd⟩, hformat⟩, hv⟩ := hmatch
      refine .cached hid ⟨hsrc, hurl, hformat, fun _ => hv⟩ ⟨hsrc, hurl, .inr ⟨hver, hv⟩⟩ ?_
      simp [refreshed, ← hfw, ← hsshd, ← hv]
  · cases h

variable {architecture : Arch} {ref : ImageRef} {sha256 : Option String}

/-- A resolved source is that of the reference, up to a checksum given for the pull and the verification by it. -/
theorem resolve_ok (h : resolve architecture ref sha256 = .ok source) :
    ∃ verification checksum, source = { resolvePersisted architecture ref with
      verification := verification, checksum := checksum } := by
  cases sha256 with
  | none =>
    cases h
    exact ⟨_, _, rfl⟩
  | some sha256 =>
    cases ref with
    | url url =>
      cases h
      exact ⟨_, _, rfl⟩
    | _ => cases h

theorem resolveExpectedChecksum_ok {checked : ResolvedImageSource}
    (h : resolveExpectedChecksum source up = .ok checked) :
    ∃ verification, checked = { source with verification := verification } := by
  unfold resolveExpectedChecksum at h
  split at h
  · cases h
    exact ⟨_, rfl⟩
  · cases h
    exact ⟨_, rfl⟩
  · obtain ⟨digest, -, h⟩ := Res.bind_ok h
    cases h
    exact ⟨_, rfl⟩

/-- What a pull has verified is what a lookup for its source asks for. -/
theorem Fits.matches_checked {checked : ResolvedImageSource} {m : ImageMetadata}
    (hchecked : resolveExpectedChecksum source up = .ok checked) (h : Fits m checked) :
    metadataMatchesCacheSource m source = true := by
  have hverified : ∀ v, checked.verification = some v → m.verification = some v := by
    intro v hv
    rw [h.verification (by rw [hv]; rfl), hv]
  unfold resolveExpectedChecksum at hchecked
  simp only [metadataMatchesCacheSource, Bool.and_eq_true]
  split at hchecked
  · cases hchecked
    exact ⟨⟨h.sourceIs, h.format⟩, decide_eq_true h.url⟩
  · rename_i v _
    cases hchecked
    refine ⟨⟨h.sourceIs, h.format⟩, ?_⟩
    simp only [Bool.and_eq_true, decide_eq_true_eq]
    exact ⟨h.url, hverified v rfl⟩
  · rename_i url algorithm _
    obtain ⟨digest, -, hchecked⟩ := Res.bind_ok hchecked
    cases hchecked
    refine ⟨⟨h.sourceIs, h.format⟩, ?_⟩
    rw [hverified ⟨algorithm, digest⟩ rfl]
    simp

/-- A lookup for the reference finds what fits the source of a pull. -/
theorem Fits.matches_persisted {checked : ResolvedImageSource} {m : ImageMetadata}
    (hsource : resolve architecture ref sha256 = .ok source)
    (hchecked : resolveExpectedChecksum source up = .ok checked) (h : Fits m checked) :
    metadataMatchesCacheSource m (resolvePersisted architecture ref) = true := by
  cases sha256 with
  | none =>
    cases hsource
    exact h.matches_checked hchecked
  | some sha256 =>
    -- The checksum of the pull is not part of the reference: the lookup asks for the URL only.
    cases ref with
    | url url =>
      cases hsource
      cases hchecked
      simp only [metadataMatchesCacheSource, resolvePersisted, Bool.and_eq_true]
      exact ⟨⟨h.sourceIs, rfl⟩, decide_eq_true h.url⟩
    | _ => cases hsource

theorem pull_pulled (hs : Sound images) (h : (do
      pullLocked stableImageId validate images (← resolve architecture ref sha256) up) = .ok (images', stored)) :
    ∃ source checked, resolve architecture ref sha256 = .ok source ∧ resolveExpectedChecksum source up = .ok checked ∧
      checked.sourceRef = (resolvePersisted architecture ref).sourceRef ∧ checked.architecture = architecture ∧
      Pulled images checked up images' stored := by
  obtain ⟨source, hsource, h⟩ := Res.bind_ok h
  obtain ⟨verification, checksum, rfl⟩ := resolve_ok hsource
  have harch : (resolvePersisted architecture ref).architecture = architecture := by cases ref <;> rfl
  unfold pullLocked at h
  split at h
  · rename_i reference hloc
    -- An OCI reference has no checksum to resolve.
    cases ref with
    | oci reference =>
      cases sha256 with
      | none =>
        cases hsource
        exact ⟨_, _, rfl, rfl, rfl, rfl, pullOciLocked_pulled hs rfl rfl rfl h⟩
      | some _ => cases hsource
    | _ => cases hloc
  · obtain ⟨checked, hchecked, h⟩ := Res.bind_ok h
    obtain ⟨cached, hcached, h⟩ := Res.bind_ok h
    refine ⟨_, checked, hsource, hchecked, ?_, ?_, ?_⟩
    · obtain ⟨v, rfl⟩ := resolveExpectedChecksum_ok hchecked
      rfl
    · obtain ⟨v, rfl⟩ := resolveExpectedChecksum_ok hchecked
      exact harch
    · cases cached with
      | none => exact pullStaged_pulled hs h
      | some cached =>
        cases h
        split at hcached
        · rename_i hver
          exact findExactCache_pulled hs hver hcached
        · cases hcached

end pulls

/-! ## The invariant -/

section invariant

variable (stableImageId : String → Option String → Arch → String → String) (validate : ImageMetadata → Res Unit)
  (architecture : Arch)

structure Inv (s : State) : Prop where
  sound : Sound s.images
  distinct : ∀ id₁ id₂ x₁ x₂, s.images.lookup id₁ = some x₁ → s.images.lookup id₂ = some x₂ →
    x₁.metadata.sourceRef = x₂.metadata.sourceRef → x₁.metadata.architecture = x₂.metadata.architecture →
    x₁.metadata.generation = x₂.metadata.generation → id₁ = id₂
  last : ∀ sourceRef ref id, s.last sourceRef = some (ref, id) →
    sourceRef = (resolvePersisted architecture ref).sourceRef ∧ ∃ stored, s.images.lookup id = some stored ∧
      stored.metadata.sourceIs sourceRef architecture ∧
      metadataMatchesCacheSource stored.metadata (resolvePersisted architecture ref) ∧ Highest s.images stored.metadata

variable {stableImageId validate architecture} {s s' : State} {images images' : Images} {source : ResolvedImageSource}
  {up : Upstream} {stored : StoredImage}

theorem Initial.inv (h : Initial s) : Inv architecture s where
  sound := ⟨h.sorted, h.keyed, h.intact⟩
  distinct := h.distinct
  last sourceRef ref id hl := by
    rw [h.none] at hl
    cases hl

theorem sourceIs_iff {m : ImageMetadata} {sourceRef : String} {arch : Arch} :
    m.sourceIs sourceRef arch = true ↔ m.sourceRef = sourceRef ∧ m.architecture = arch := by
  simp [ImageMetadata.sourceIs]

/-- An image that matches a lookup is one of the reference and architecture of the lookup. -/
theorem sourceIs_of_matches {m : ImageMetadata} (h : metadataMatchesCacheSource m source = true) :
    m.sourceIs source.sourceRef source.architecture = true := by
  simp only [metadataMatchesCacheSource, Bool.and_eq_true] at h
  exact h.1.1

theorem Inv.latestWins (h : Inv architecture s) : LatestWins architecture s where
  distinct := h.distinct
  selected sourceRef ref id hl := by
    obtain ⟨rfl, x, hx, hsrc, hmatch, hhigh⟩ := h.last sourceRef ref id hl
    have harch : (resolvePersisted architecture ref).architecture = architecture := by cases ref <;> rfl
    obtain ⟨hxref, hxarch⟩ := sourceIs_iff.mp hsrc
    -- Among the images of the reference, no other reaches the generation of the last one pulled.
    have habove : ∀ id' y, s.images.lookup id' = some y →
        y.metadata.sourceIs (resolvePersisted architecture ref).sourceRef architecture = true → id' ≠ id →
          y.metadata.generation < x.metadata.generation := by
      intro id' y hy hysrc hne
      obtain ⟨hyref, hyarch⟩ := sourceIs_iff.mp hysrc
      refine lt_of_le_of_ne (hhigh id' y hy (by rw [hxref, hxarch]; exact hysrc)) fun hgen => hne ?_
      exact h.distinct id' id y x hy hx (hyref.trans hxref.symm) (hyarch.trans hxarch.symm) hgen
    have hid := h.sound.keyed id x hx
    have hintact := h.sound.intact id x hx
    refine ⟨⟨x, ?_, hid⟩, x, ?_, hid⟩
    · refine findLatest_eq h.sound.sorted hx hmatch hintact fun id' y hy hym => habove id' y hy ?_
      have := sourceIs_of_matches hym
      rwa [harch] at this
    · exact findLatest_eq h.sound.sorted hx hsrc hintact habove

theorem lookup_insert {id id' : String} {x y : StoredImage}
    (h : (insertMember id x images).lookup id' = some y) : (id' = id ∧ y = x) ∨ (id' ≠ id ∧ images.lookup id' = some y) := by
  by_cases he : id' = id
  · subst he
    rw [lookup_insertMember_self] at h
    exact .inl ⟨rfl, (Option.some.inj h).symm⟩
  · rw [lookup_insertMember_ne he] at h
    exact .inr ⟨he, h⟩

/-- What a pull returns has the highest generation of its reference, if the content it met was current. -/
theorem Pulled.highest (h : Pulled images source up images' stored)
    (hcurrent : ∀ id x, images.lookup id = some x → HoldsContent x.metadata source up →
      Highest images x.metadata ∨ refreshed x.metadata source ≠ x.metadata) : Highest images' stored.metadata := by
  cases h with
  | cached hx hfits hcontent hsame => exact (hcurrent _ _ hx hcontent).resolve_right (fun hne => hne hsame)
  | put hid hfits hintact hnext hgen hold =>
    obtain ⟨href, harch⟩ := sourceIs_iff.mp hfits.sourceIs
    intro id' y hy hysrc
    rcases lookup_insert hy with ⟨-, rfl⟩ | ⟨-, hy⟩
    · exact le_rfl
    · rw [href, harch] at hysrc
      rw [hgen]
      exact (nextGeneration_gt hnext hy hysrc).le

theorem Pulled.fits (h : Pulled images source up images' stored) : Fits stored.metadata source := by
  cases h <;> assumption

theorem Pulled.lookup (h : Pulled images source up images' stored) (hs : Sound images) :
    images'.lookup stored.metadata.id = some stored := by
  cases h with
  | cached hx _ _ _ => rw [hs.keyed _ _ hx, hx]
  | put hid _ _ _ _ _ => rw [hid, lookup_insertMember_self]

theorem Pulled.sound (h : Pulled images source up images' stored) (hs : Sound images) : Sound images' := by
  cases h with
  | cached => exact hs
  | put hid _ hintact _ _ _ =>
    refine ⟨hs.sorted.insertMember, fun id' y hy => ?_, fun id' y hy => ?_⟩
    · rcases lookup_insert hy with ⟨rfl, rfl⟩ | ⟨-, hy⟩
      · exact hid
      · exact hs.keyed id' y hy
    · rcases lookup_insert hy with ⟨-, rfl⟩ | ⟨-, hy⟩
      · exact hintact
      · exact hs.intact id' y hy

/-- A new generation is one of its own. -/
theorem Pulled.distinct (h : Pulled images source up images' stored)
    (hd : ∀ id₁ id₂ x₁ x₂, images.lookup id₁ = some x₁ → images.lookup id₂ = some x₂ →
      x₁.metadata.sourceRef = x₂.metadata.sourceRef → x₁.metadata.architecture = x₂.metadata.architecture →
      x₁.metadata.generation = x₂.metadata.generation → id₁ = id₂) :
    ∀ id₁ id₂ x₁ x₂, images'.lookup id₁ = some x₁ → images'.lookup id₂ = some x₂ →
      x₁.metadata.sourceRef = x₂.metadata.sourceRef → x₁.metadata.architecture = x₂.metadata.architecture →
      x₁.metadata.generation = x₂.metadata.generation → id₁ = id₂ := by
  cases h with
  | cached => exact hd
  | put hid hfits hintact hnext hgen hold =>
    obtain ⟨href, harch⟩ := sourceIs_iff.mp hfits.sourceIs
    have hbelow : ∀ id y, images.lookup id = some y → y.metadata.sourceRef = stored.metadata.sourceRef →
        y.metadata.architecture = stored.metadata.architecture →
          y.metadata.generation ≠ stored.metadata.generation := by
      intro id y hy hyref hyarch
      rw [hgen]
      exact (nextGeneration_gt hnext hy (sourceIs_iff.mpr ⟨hyref.trans href, hyarch.trans harch⟩)).ne
    intro id₁ id₂ x₁ x₂ h₁ h₂ hr ha hg
    rcases lookup_insert h₁ with ⟨rfl, rfl⟩ | ⟨-, h₁'⟩ <;> rcases lookup_insert h₂ with ⟨rfl, rfl⟩ | ⟨-, h₂'⟩
    · rfl
    · exact absurd hg.symm (hbelow id₂ x₂ h₂' hr.symm ha.symm)
    · exact absurd hg (hbelow id₁ x₁ h₁' hr ha)
    · exact hd id₁ id₂ x₁ x₂ h₁' h₂' hr ha hg

/-- A pull leaves the images of other references as they are. -/
theorem Pulled.frame (h : Pulled images source up images' stored) {id : String} {x : StoredImage}
    (hne : ¬ x.metadata.sourceIs source.sourceRef source.architecture) :
    images'.lookup id = some x ↔ images.lookup id = some x := by
  cases h with
  | cached => rfl
  | put hid hfits hintact hnext hgen hold =>
    rename_i id₀ n
    by_cases he : id = id₀
    · subst he
      rw [lookup_insertMember_self]
      refine ⟨fun h => ?_, fun h => absurd (hold x h) hne⟩
      cases h
      exact absurd hfits.sourceIs hne
    · rw [lookup_insertMember_ne he]

theorem Inv.pull {ref : ImageRef} {sha256 : Option String} (h : Inv architecture s)
    (hok : Current architecture s (.pull ref sha256 up))
    (hs : step stableImageId validate architecture s (.pull ref sha256 up) = some s') : Inv architecture s' := by
  simp only [step] at hs
  split at hs
  · rename_i images' stored hpull
    cases hs
    obtain ⟨source, checked, hsource, hchecked, href, harch, hp⟩ := pull_pulled h.sound hpull
    refine ⟨hp.sound h.sound, hp.distinct h.distinct, fun sourceRef ref' id' hl => ?_⟩
    change Function.update s.last _ _ sourceRef = _ at hl
    by_cases hsame : sourceRef = (resolvePersisted architecture ref).sourceRef
    · subst hsame
      rw [Function.update_self] at hl
      cases hl
      have hsrc := hp.fits.sourceIs
      rw [href, harch] at hsrc
      exact ⟨rfl, stored, hp.lookup h.sound, hsrc, hp.fits.matches_persisted hsource hchecked,
        hp.highest fun id x hx => hok source checked hsource hchecked id x hx⟩
    · -- Another reference: its images are not touched.
      rw [Function.update_of_ne hsame] at hl
      obtain ⟨hkey, x, hx, hsrc, hmatch, hhigh⟩ := h.last sourceRef ref' id' hl
      have hother : ∀ m : ImageMetadata, m.sourceIs x.metadata.sourceRef x.metadata.architecture = true →
          ¬ m.sourceIs checked.sourceRef checked.architecture := by
        intro m hm hmc
        rw [href] at hmc
        refine hsame ?_
        rw [← (sourceIs_iff.mp hmc).1, (sourceIs_iff.mp hm).1, (sourceIs_iff.mp hsrc).1]
      have hself : x.metadata.sourceIs x.metadata.sourceRef x.metadata.architecture = true := sourceIs_iff.mpr ⟨rfl, rfl⟩
      refine ⟨hkey, x, (hp.frame (hother _ hself)).mpr hx, hsrc, hmatch, fun id y hy hysrc => ?_⟩
      exact hhigh id y ((hp.frame (hother _ hysrc)).mp hy) hysrc
  · cases hs

theorem Inv.remove {id : String} (h : Inv architecture s)
    (hs : step stableImageId validate architecture s (.remove id) = some s') : Inv architecture s' := by
  have hold : ∀ {id' x}, (eraseMember id s.images).lookup id' = some x → s.images.lookup id' = some x := by
    intro id' x hx
    by_cases he : id' = id
    · rw [he, lookup_eraseMember_self] at hx
      cases hx
    · rwa [lookup_eraseMember_ne he] at hx
  simp only [step] at hs
  split at hs
  · cases hs
    refine ⟨⟨h.sound.sorted.eraseMember, fun id' x hx => h.sound.keyed id' x (hold hx),
      fun id' x hx => h.sound.intact id' x (hold hx)⟩,
      fun id₁ id₂ x₁ x₂ h₁ h₂ => h.distinct id₁ id₂ x₁ x₂ (hold h₁) (hold h₂), fun sourceRef ref id' hl => ?_⟩
    obtain ⟨hl, hne⟩ := Option.filter_eq_some_iff.mp hl
    obtain ⟨hkey, x, hx, hsrc, hmatch, hhigh⟩ := h.last sourceRef ref id' hl
    refine ⟨hkey, x, ?_, hsrc, hmatch, fun id₁ y hy => hhigh id₁ y (hold hy)⟩
    rw [lookup_eraseMember_ne (by simpa using hne), hx]
  · cases hs

theorem Inv.step {a : Action} (h : Inv architecture s) (hok : Current architecture s a)
    (hs : step stableImageId validate architecture s a = some s') : Inv architecture s' := by
  cases a with
  | pull ref sha256 up => exact h.pull hok hs
  | remove id => exact h.remove hs

end invariant

/-- **The latest pull wins**: in every run of pulls and removals whose pulls meet no content that only an older
generation holds, the last pull of each reference is what a machine without a pinned image gets, and the generations of
one reference and architecture are distinct. -/
theorem reachable_latestWins (stableImageId : String → Option String → Arch → String → String)
    (validate : ImageMetadata → Res Unit) (architecture : Arch) {s : State}
    (hr : Reachable (step stableImageId validate architecture) (Current architecture) Initial s) :
    LatestWins architecture s := by
  have hinv : Inv architecture s := hr.invariant (fun _ h => Initial.inv h) fun _ _ _ h hok hs => Inv.step h hok hs
  exact hinv.latestWins

/-! ## A tag that moves -/

/-- An identity of the source and the digest, in place of their hash. -/
def plainImageId (sourceRef : String) (sourceUrl : Option String) (_ : Arch) (sha256 : String) : String :=
  "image-" ++ sourceRef ++ "|" ++ sourceUrl.getD "" ++ "|" ++ sha256

def currentUrl : String := "https://images.example/current.qcow2"

/-- A pull of the URL that meets content with the digest. -/
def pullOf (sha256 : String) : Action :=
  .pull (.url currentUrl) none ⟨.ok sha256, sha256, sha256, .qcow2, sha256, 1, "2026-01-01T00:00:00Z"⟩

def emptyState : State := ⟨[], fun _ => none⟩

theorem emptyState_initial : Initial emptyState := by
  refine ⟨fun _ => rfl, List.Pairwise.nil, ?_, ?_, ?_⟩
  · rintro _ _ ⟨⟩
  · rintro _ _ ⟨⟩
  · rintro _ _ _ _ ⟨⟩

abbrev plainStep : State → Action → Option State := step plainImageId (fun _ => .ok ()) .x86_64

/-- The URL moves on from `a` to `b`: a machine gets `b`. -/
theorem moved_url_latestWins : ∃ s, Lib.run plainStep emptyState [pullOf "a", pullOf "b"] = some s ∧
    LatestWins .x86_64 s := by
  have hrun : (Lib.run plainStep emptyState [pullOf "a", pullOf "b"]).isSome = true := by decide
  obtain ⟨s, hs⟩ := Option.isSome_iff_exists.mp hrun
  have hmeet : StepsMeet plainStep (Current .x86_64) emptyState [pullOf "a", pullOf "b"] := by
    refine .cons rfl ?_ (.cons rfl ?_ trivial)
    · rintro source checked - - id stored ⟨⟩
    · -- The one image stored holds `a`, and an unchecked pull compares nothing else.
      rintro source checked ⟨⟩ ⟨⟩ id stored hl ⟨-, -, hsha | ⟨hver, -⟩⟩
      · cases List.mem_singleton.mp (mem_of_lookup hl)
        exact absurd hsha (by decide)
      · cases hver
  exact ⟨s, hs, reachable_latestWins plainImageId (fun _ => .ok ()) .x86_64
    ((Reachable.start emptyState_initial).run hmeet hs)⟩

/-- The URL moves back to `a`: the pull returns the image stored first, but a machine gets the image of `b`. -/
theorem moved_back_url_not_latestWins : ∃ s, Reachable plainStep anyStep Initial s ∧ ¬ LatestWins .x86_64 s := by
  have hrun : (Lib.run plainStep emptyState [pullOf "a", pullOf "b", pullOf "a"]).any (fun s =>
      (s.last currentUrl).any (fun x => x.1 = .url currentUrl && x.2 = plainImageId currentUrl currentUrl .x86_64 "a") &&
        ((findLatestForSource s.images (resolvePersisted .x86_64 (.url currentUrl))).toOption.join.any fun stored =>
          stored.metadata.id ≠ plainImageId currentUrl currentUrl .x86_64 "a")) = true := by
    decide
  obtain ⟨s, hs, hsel⟩ := (Option.any_eq_true _ _).mp hrun
  obtain ⟨hlast, hfound⟩ := Bool.and_eq_true_iff.mp hsel
  obtain ⟨⟨ref, id⟩, hlast, hid⟩ := (Option.any_eq_true _ _).mp hlast
  simp only [Bool.and_eq_true, decide_eq_true_eq] at hid
  obtain ⟨rfl, rfl⟩ := hid
  refine ⟨s, reachable_of_run emptyState_initial hs, fun h => ?_⟩
  obtain ⟨⟨stored, hstored, hid⟩, -⟩ := h.selected _ _ _ hlast
  rw [hstored] at hfound
  simp [Except.toOption, hid] at hfound

end Firestone.Image.Generations
