import Firestone.Lib.Talk
import Firestone.Oci.Auth
import Firestone.State
import Mathlib.Data.List.Dedup
import Mathlib.Data.List.Sort
import Mathlib.Data.Set.Function

/-!
# Pulls from an OCI registry

The client resolves a reference to the manifest for the host's platform, through an index or not, reads the image
configuration and streams the layers. The registry is not trusted: it answers every request as it likes.

* `resolve`, `fetchLayer` — the client, as programs that talk to a server.
* `Ambiguous`, `Unpinned` — the two ways in which a document leaves the choice of the manifest to the registry.
* `contentAddressed_iff` — a pull by digest has one result whatever the registry does, exactly when the document with
  that digest is neither.

SHA-256, the readers of JSON documents and the URL library are parameters.
-/

namespace Firestone.Oci.Registry

open Firestone.Lib

/-! ## References and descriptors -/

def digestAlgorithm : String := "sha256"

/-- `sha256:` and 64 lowercase hexadecimal characters. -/
def isSha256Digest (digest : String) : Bool :=
  (splitOnce ':' digest).any fun x =>
    x.1 = digestAlgorithm && x.2.toList.length = 64 &&
      x.2.toList.all fun c => c.isDigit || ('a' ≤ c && c ≤ 'f')

inductive OciTagOrDigest
  | tag (tag : String)
  | digest (digest : { d : String // isSha256Digest d = true })

structure OciReference where
  registry : String
  repository : String
  reference : OciTagOrDigest

def OciReference.text (r : OciReference) : String :=
  match r.reference with
  | .tag tag => s!"{r.registry}/{r.repository}:{tag}"
  | .digest digest => s!"{r.registry}/{r.repository}@{digest.val}"

structure BlobDescriptor where
  mediaType : String
  digest : String
  size : Nat
  deriving DecidableEq, Repr

structure ImageManifest where
  config : BlobDescriptor
  layers : List BlobDescriptor
  deriving DecidableEq, Repr

structure Platform where
  os : String
  architecture : String
  variant : Option String
  osFeatures : Option (List String)
  deriving DecidableEq, Repr

structure IndexEntry where
  mediaType : Option String
  digest : String
  platform : Option Platform
  artifactType : Option String
  deriving DecidableEq, Repr

/-- The fields that tell an index from a manifest. -/
structure DocumentProbe where
  mediaType : Option String
  manifests : Option (List IndexEntry)
  config : Option BlobDescriptor
  deriving DecidableEq, Repr

/-- The runtime fields kept from an image configuration. -/
structure OciImageConfig where
  env : List String
  entrypoint : List String
  cmd : List String
  workingDir : Option String
  user : Option String
  deriving DecidableEq, Repr

structure TokenResponse where
  token : Option String
  accessToken : Option String

structure LayerDescriptor where
  digest : String
  mediaType : String
  size : Nat
  deriving DecidableEq, Repr

structure ResolvedManifest where
  reference : String
  manifestDigest : String
  indexDigest : Option String
  manifestMediaType : String
  configDigest : String
  config : OciImageConfig
  layers : List LayerDescriptor
  deriving DecidableEq, Repr

/-! ## The transport -/

structure Url where
  scheme : String
  host : Option String
  port : Option Nat
  text : String
  deriving DecidableEq, Repr

structure Request where
  url : Url
  headers : List (String × String)
  deriving DecidableEq, Repr

/-- What the reads of a body return until its end, or until the connection breaks. -/
structure Body where
  chunks : List Bytes
  broken : Bool
  /-- A read of nothing is the end. -/
  nonempty : [] ∉ chunks

def Body.bytes (body : Body) : Bytes := body.chunks.flatten

structure Response where
  status : Nat
  headers : List (String × String)
  body : Body
  contentLength : Option Nat

def Response.header (response : Response) (name : String) : Option String :=
  (response.headers.find? fun h => eqIgnoreAsciiCase h.1 name).map Prod.snd

/-- What the client is built on: the hash, the JSON readers and the URL library. -/
structure Env where
  sha256 : Bytes → Bytes
  probe : Bytes → Option DocumentProbe
  manifest : Bytes → Option ImageManifest
  config : Bytes → Option OciImageConfig
  token : Bytes → Option TokenResponse
  parseUrl : String → Option Url
  appendPair : Url → String → String → Url

structure Client where
  architecture : Arch
  insecureRegistries : List String
  credentials : List (String × BasicCredential)

abbrev Session := Talk Request Response FirestoneError

abbrev Registry := Server Request Response FirestoneError

/-! ## Constants -/

def maxManifestBytes : Nat := 4 * 1024 * 1024
def maxConfigBytes : Nat := 1024 * 1024
def maxTokenBytes : Nat := 64 * 1024
def maxLayers : Nat := 128
def progressIntervalBytes : Nat := 1024 * 1024

def mediaTypeOciIndex : String := "application/vnd.oci.image.index.v1+json"
def mediaTypeOciManifest : String := "application/vnd.oci.image.manifest.v1+json"
def mediaTypeDockerManifestList : String := "application/vnd.docker.distribution.manifest.list.v2+json"
def mediaTypeDockerManifest : String := "application/vnd.docker.distribution.manifest.v2+json"
def mediaTypeDockerLayerGzip : String := "application/vnd.docker.image.rootfs.diff.tar.gzip"
def mediaTypeOciLayerGzip : String := "application/vnd.oci.image.layer.v1.tar+gzip"
def mediaTypeOciLayerZstd : String := "application/vnd.oci.image.layer.v1.tar+zstd"

def manifestAccept : String :=
  s!"{mediaTypeOciIndex}, {mediaTypeOciManifest}, {mediaTypeDockerManifestList}, {mediaTypeDockerManifest}"

def isIndexMediaType (mediaType : String) : Bool :=
  mediaType = mediaTypeOciIndex || mediaType = mediaTypeDockerManifestList

def isManifestMediaType (mediaType : String) : Bool :=
  mediaType = mediaTypeOciManifest || mediaType = mediaTypeDockerManifest

/-! ## Digests and bodies -/

def digestHex (digest : String) : String := ((splitOnce ':' digest).map Prod.snd).getD digest

def validateDigest (digest label : String) : Res Unit :=
  if isSha256Digest digest then .ok ()
  else .error ((FirestoneError.new .checksum s!"{label} descriptor carries an unsupported digest '{digest}'").withHint
    "firestone accepts sha256 digests only")

def verifyDigest (expected actualHex label : String) : Res Unit :=
  if eqIgnoreAsciiCase (digestHex expected) actualHex then .ok ()
  else .error ((FirestoneError.new .checksum
    s!"{label} hashes to {digestAlgorithm}:{actualHex} but the registry named {expected}").withHint
    "retry the pull; the registry returned bytes that do not match their digest")

/-- The whole body, if it is not longer than the limit. -/
def readBounded (response : Response) (limit : Nat) (label : String) : Res Bytes :=
  if limit < response.body.bytes.length then
    .error ((FirestoneError.new .dependency s!"{label} is larger than the {limit} byte limit firestone reads").withHint
      "the registry returned an oversized document; pull a smaller image")
  else if response.body.broken then
    .error ((FirestoneError.new .generic s!"cannot read {label}").withHint "check network access and retry the pull")
  else .ok response.body.bytes

def redactedEndpoint (url : Url) : String :=
  let host := url.host.getD ""
  match url.port with
  | some port => s!"{url.scheme}://{host}:{port}"
  | none => s!"{url.scheme}://{host}"

def checkStatus (reference : OciReference) (url : Url) (response : Response) : Res Response :=
  if 200 ≤ response.status ∧ response.status ≤ 299 then .ok response
  else if response.status = 404 then
    .error ((FirestoneError.new .notFound
      s!"registry '{reference.registry}' has no '{reference.repository}' matching '{reference.text}'").withHint
      "check the repository name and tag, or run `docker login` for a private image")
  else if response.status = 429 then
    .error ((FirestoneError.new .busy
      s!"registry '{reference.registry}' rate-limited the pull of '{reference.text}'").withHint
      "wait and retry, or authenticate with `docker login`")
  else
    .error ((FirestoneError.new .dependency
      s!"registry request for '{reference.text}' failed with HTTP {response.status}").withHint
      s!"the registry endpoint {redactedEndpoint url} rejected a read-only Registry V2 request")

def authenticationError (reference : OciReference) (overHttps : Bool) (credential : Option BasicCredential) :
    FirestoneError :=
  let registry := reference.registry
  let hint :=
    if overHttps then
      match credential with
      | some c => s!"the credentials stored for {registry} as user '{c.user}' were rejected; run `docker login {registry}`"
      | none => s!"run `docker login {registry}` and retry"
    else s!"firestone never sends credentials over plain HTTP; serve {registry} over HTTPS to authenticate"
  (FirestoneError.new .dependency
    s!"registry '{registry}' denied access to repository '{reference.repository}'").withHint hint

/-! ## Requests -/

section client

variable (env : Env) (client : Client)

def isInsecure (registry : String) : Bool := client.insecureRegistries.contains registry

def registryEndpointHost (registry : String) : String :=
  if registry = "docker.io" || registry = "index.docker.io" then "registry-1.docker.io" else registry

def endpointText (registry path : String) : String :=
  let scheme := if isInsecure client registry then "http" else "https"
  s!"{scheme}://{registryEndpointHost registry}{path}"

def endpointUrl (registry path : String) : Res Url :=
  match env.parseUrl (endpointText client registry path) with
  | some url => .ok url
  | none => .error ((FirestoneError.new .invalidSpec s!"cannot build a registry URL for '{registry}'").withHint
      "check the registry host in the image reference")

/-- A plain-HTTP realm stays on the allow-listed registry. -/
def realmMatchesRegistry (realm : Url) (registry : String) : Bool :=
  match realm.host with
  | none => false
  | some host =>
    let authority := match realm.port with
      | some port => s!"{host}:{port}"
      | none => host
    eqIgnoreAsciiCase authority registry

def tokenRealmAllowed (realm : Url) (registry : String) : Bool :=
  if realm.scheme = "https" then true
  else if realm.scheme = "http" then isInsecure client registry && realmMatchesRegistry realm registry
  else false

def protocolHint : String := "the registry is not speaking the Registry V2 token protocol"

def tokenUrl (reference : OciReference) (challenge : AuthChallenge) : Res Url :=
  match challenge.parameter "realm" with
  | none => .error ((FirestoneError.new .dependency
      s!"registry '{reference.registry}' sent a Bearer challenge without a realm").withHint protocolHint)
  | some realm =>
    match env.parseUrl realm with
    | none => .error ((FirestoneError.new .dependency
        s!"registry '{reference.registry}' sent an unusable token realm").withHint protocolHint)
    | some url =>
      if tokenRealmAllowed client url reference.registry then
        let url := match challenge.parameter "service" with
          | some service => env.appendPair url "service" service
          | none => url
        .ok (env.appendPair url "scope" ((challenge.parameter "scope").getD s!"repository:{reference.repository}:pull"))
      else
        .error ((FirestoneError.new .dependency
          s!"registry '{reference.registry}' sent a plain-HTTP token realm '{url.text}'").withHint
          "token realms must use HTTPS unless the registry is in images.insecure_registries")

def authorization (credential : Option BasicCredential) : List (String × String) :=
  match credential with
  | some c => [("authorization", c.headerValue)]
  | none => []

/-- The token of a response of the token endpoint. -/
def readToken (reference : OciReference) (overHttps : Bool) (credential : Option BasicCredential)
    (response : Response) : Res String :=
  if response.status ≠ 200 then .error (authenticationError reference overHttps credential)
  else do
    let bytes ← readBounded response maxTokenBytes s!"token response for '{reference.registry}'"
    match env.token bytes with
    | none => .error ((FirestoneError.new .dependency
        s!"registry '{reference.registry}' returned an unreadable token response").withHint protocolHint)
    | some token =>
      match (token.token.or token.accessToken).filter (· ≠ "") with
      | some value => .ok value
      | none => .error ((FirestoneError.new .dependency
          s!"registry '{reference.registry}' returned a token response without a token").withHint protocolHint)

def fetchToken (reference : OciReference) (challenge : AuthChallenge) (overHttps : Bool)
    (credential : Option BasicCredential) : Session String := do
  let url ← Talk.lift (tokenUrl env client reference challenge)
  let response ← Talk.send ⟨url, if url.scheme = "https" then authorization credential else []⟩
  Talk.lift (readToken env reference overHttps credential response)

/-- The challenge of a 401 response, if it asks for a token. -/
def bearerChallenge (reference : OciReference) (overHttps : Bool) (credential : Option BasicCredential)
    (response : Response) : Res AuthChallenge :=
  match response.header "www-authenticate" with
  | none => .error (authenticationError reference overHttps credential)
  | some value => do
    let challenge ← parseAuthChallenge value
    if challenge.scheme = .bearer then .ok challenge
    else .error (authenticationError reference overHttps credential)

def accepting (accept : Option String) : List (String × String) :=
  match accept with
  | some value => [("accept", value)]
  | none => []

/-- One request, with at most one token fetch and one retry. -/
def request (reference : OciReference) (url : Url) (accept : Option String) : Session Response := do
  let overHttps := url.scheme = "https"
  let credential := if overHttps then client.credentials.lookup reference.registry else none
  let response ← Talk.send ⟨url, accepting accept ++ authorization credential⟩
  if response.status ≠ 401 then Talk.lift (checkStatus reference url response)
  else
    let challenge ← Talk.lift (bearerChallenge reference overHttps credential response)
    let token ← fetchToken env client reference challenge overHttps credential
    let retried ← Talk.send ⟨url, accepting accept ++ [("authorization", s!"Bearer {token}")]⟩
    if retried.status = 401 then Talk.lift (.error (authenticationError reference overHttps credential))
    else Talk.lift (checkStatus reference url retried)

/-! ## Documents -/

/-- One fetched manifest document with the digest of its exact bytes. -/
structure FetchedDocument where
  bytes : Bytes
  digest : String
  mediaType : Option String

/-- The media type in a content-type header, without its parameters. -/
def mediaTypeOf (value : String) : String := trim (String.ofList (value.toList.takeWhile (· ≠ ';')))

/-- The targets whose documents are compared with them. -/
def digestChecked (target : String) : Bool :=
  digestAlgorithm.toList.isPrefixOf target.toList && target.toList.contains ':'

def digestOf (bytes : Bytes) : String := s!"{digestAlgorithm}:{hexDigest (env.sha256 bytes)}"

def checkAdvertised (reference : OciReference) (digest : String) (advertised : Option String) : Res Unit :=
  match advertised with
  | none => .ok ()
  | some advertised =>
    if eqIgnoreAsciiCase advertised digest then .ok ()
    else .error ((FirestoneError.new .checksum
      s!"registry reported manifest digest {advertised} for '{reference.text}' but the bytes hash to {digest}").withHint
      "retry the pull; the registry response did not match its own digest")

def checkTarget (reference : OciReference) (target digest : String) : Res Unit :=
  if digestChecked target then verifyDigest target (digestHex digest) s!"manifest of '{reference.text}'" else .ok ()

/-- Reads and checks the response to a manifest request. -/
def readDocument (reference : OciReference) (target : String) (response : Response) : Res FetchedDocument := do
  let bytes ← readBounded response maxManifestBytes s!"manifest '{target}' of '{reference.text}'"
  checkTarget reference target (digestOf env bytes)
  checkAdvertised reference (digestOf env bytes) (response.header "docker-content-digest")
  return ⟨bytes, digestOf env bytes, (response.header "content-type").map mediaTypeOf⟩

def fetchManifestDocument (reference : OciReference) (target : String) : Session FetchedDocument := do
  let url ← Talk.lift (endpointUrl env client reference.registry s!"/v2/{reference.repository}/manifests/{target}")
  let response ← request env client reference url (some manifestAccept)
  Talk.lift (readDocument env reference target response)

inductive RegistryDocument
  | index (entries : List IndexEntry)
  | manifest (manifest : ImageManifest)

def unreadableManifest (reference : OciReference) : FirestoneError :=
  (FirestoneError.new .dependency s!"registry returned an unreadable manifest for '{reference.text}'").withHint
    "retry the pull; the registry response was not a Registry V2 manifest"

def parseManifestBody (reference : OciReference) (bytes : Bytes) : Res ImageManifest :=
  match env.manifest bytes with
  | some manifest => .ok manifest
  | none => .error (unreadableManifest reference)

/-- Decides whether a fetched document is an index or a manifest. -/
def parseDocument (reference : OciReference) (document : FetchedDocument) : Res RegistryDocument :=
  match env.probe document.bytes with
  | none => .error (unreadableManifest reference)
  | some probe =>
    let mediaType := (probe.mediaType.or document.mediaType).getD ""
    if isIndexMediaType mediaType then .ok (.index (probe.manifests.getD []))
    else if isManifestMediaType mediaType then (parseManifestBody env reference document.bytes).map .manifest
    else if mediaType ≠ "" && mediaType ≠ "application/json" then
      .error ((FirestoneError.new .dependency
        s!"registry returned media type '{mediaType}' for '{reference.text}'").withHint
        s!"firestone reads {manifestAccept}")
    else
      match probe.manifests, probe.config with
      | some entries, _ => .ok (.index entries)
      | none, some _ => (parseManifestBody env reference document.bytes).map .manifest
      | none, none => .error ((FirestoneError.new .dependency
          s!"registry returned a document for '{reference.text}' that is neither a manifest nor an index").withHint
          s!"firestone reads {manifestAccept}")

/-! ## Platforms -/

def Platform.label (platform : Platform) : String :=
  match platform.variant.filter (· ≠ "") with
  | some variant => s!"{platform.os}/{platform.architecture}/{variant}"
  | none => s!"{platform.os}/{platform.architecture}"

def wantedArchitecture : Arch → String
  | .x86_64 => "amd64"
  | .aarch64 => "arm64"

/-- The entry is an image manifest or index for the host's platform. -/
def matchesPlatform (architecture : Arch) (entry : IndexEntry) : Bool :=
  match entry.platform with
  | none => false
  | some platform =>
    entry.artifactType.isNone &&
      (entry.mediaType.all fun m => isManifestMediaType m || isIndexMediaType m) && platform.osFeatures.isNone &&
      platform.os = "linux" && platform.architecture = wantedArchitecture architecture &&
      (architecture ≠ .aarch64 || platform.variant.all fun v => v = "" || v = "v8")

def selectPlatform (reference : OciReference) (entries : List IndexEntry) (architecture : Arch) : Res IndexEntry :=
  match entries.find? (matchesPlatform architecture) with
  | some entry => .ok entry
  | none =>
    let offered := ((entries.filterMap fun e => e.platform.map Platform.label).dedup).insertionSort (· ≤ ·)
    let listed := if offered.isEmpty then "nothing" else ", ".intercalate offered
    .error ((FirestoneError.new .notFound
      s!"image '{reference.text}' has no linux/{wantedArchitecture architecture} manifest; the index offers {listed}").withHint
      "pull an image published for this host architecture")

/-! ## Resolution -/

def classifyLayerMediaType (mediaType : String) : Res Unit :=
  if mediaType = mediaTypeDockerLayerGzip || mediaType = mediaTypeOciLayerGzip then .ok ()
  else if mediaType = mediaTypeOciLayerZstd then
    .error ((FirestoneError.new .dependency s!"unsupported OCI layer media type {mediaType}").withHint
      "firestone reads gzip layers only; pull a gzip-compressed copy of the image")
  else
    .error ((FirestoneError.new .dependency s!"unsupported OCI layer media type {mediaType}").withHint
      s!"supported layer media types are {mediaTypeDockerLayerGzip} and {mediaTypeOciLayerGzip}")

def layerDescriptor (descriptor : BlobDescriptor) : Res LayerDescriptor := do
  classifyLayerMediaType descriptor.mediaType
  validateDigest descriptor.digest "layer"
  return ⟨descriptor.digest, descriptor.mediaType, descriptor.size⟩

/-- The layers of a manifest, in their order. -/
def manifestLayers (reference : OciReference) (manifest : ImageManifest) : Res (List LayerDescriptor) :=
  if maxLayers < manifest.layers.length then
    let count := manifest.layers.length
    .error ((FirestoneError.new .dependency
      s!"manifest for '{reference.text}' declares {count} layers, more than the {maxLayers} firestone reads").withHint
      "pull a squashed image with at most 128 layers")
  else if manifest.layers.isEmpty then
    .error ((FirestoneError.new .dependency s!"manifest for '{reference.text}' declares no layers").withHint
      "pull an image that ships a root filesystem")
  else manifest.layers.mapM layerDescriptor

def readBlob (reference : OciReference) (digest : String) (limit : Nat) (label : String) (response : Response) :
    Res Bytes := do
  let bytes ← readBounded response limit s!"{label} of '{reference.text}'"
  verifyDigest digest (hexDigest (env.sha256 bytes)) s!"{label} of '{reference.text}'"
  return bytes

def fetchBlobBytes (reference : OciReference) (digest : String) (limit : Nat) (label : String) : Session Bytes := do
  let url ← Talk.lift (endpointUrl env client reference.registry s!"/v2/{reference.repository}/blobs/{digest}")
  let response ← request env client reference url none
  Talk.lift (readBlob env reference digest limit label response)

def parseConfig (reference : OciReference) (bytes : Bytes) : Res OciImageConfig :=
  match env.config bytes with
  | some config => .ok config
  | none => .error ((FirestoneError.new .dependency
      s!"cannot read the image configuration for '{reference.text}'").withHint
      "the registry returned a configuration firestone cannot parse")

/-- The manifest that a resolution has arrived at. -/
structure Located where
  indexDigest : Option String
  digest : String
  mediaType : String
  manifest : ImageManifest

def OciReference.target (reference : OciReference) : String :=
  match reference.reference with
  | .tag tag => tag
  | .digest digest => digest.val

def nestedIndex (reference : OciReference) (digest : String) : FirestoneError :=
  (FirestoneError.new .dependency
    s!"registry returned a nested image index for '{reference.text}' at {digest}").withHint
    "firestone resolves one index level only; pull a platform digest directly"

/-- The entry of an index is one level deep. -/
def locateChild (reference : OciReference) (indexDigest : String) (entry : IndexEntry) : Session Located := do
  let child ← fetchManifestDocument env client reference entry.digest
  match ← Talk.lift (parseDocument env reference child) with
  | .manifest manifest =>
    return ⟨some indexDigest, child.digest, child.mediaType.getD (entry.mediaType.getD mediaTypeOciManifest), manifest⟩
  | .index _ => Talk.lift (.error (nestedIndex reference entry.digest))

def locate (reference : OciReference) : Session Located := do
  let top ← fetchManifestDocument env client reference reference.target
  match ← Talk.lift (parseDocument env reference top) with
  | .index entries =>
    let selected ← Talk.lift (selectPlatform reference entries client.architecture)
    locateChild env client reference top.digest selected
  | .manifest manifest => return ⟨none, top.digest, top.mediaType.getD mediaTypeOciManifest, manifest⟩

def resolve (reference : OciReference) : Session ResolvedManifest := do
  let located ← locate env client reference
  let layers ← Talk.lift (manifestLayers reference located.manifest)
  Talk.lift (validateDigest located.manifest.config.digest "image config")
  let bytes ← fetchBlobBytes env client reference located.manifest.config.digest maxConfigBytes "image config"
  let config ← Talk.lift (parseConfig env reference bytes)
  return ⟨reference.text, located.digest, located.indexDigest, located.mediaType, located.manifest.config.digest, config,
    layers⟩

/-! ## Layers -/

/-- Where a layer is written to. Both the writer and the progress callback may fail. -/
structure Sink where
  write : Bytes → Res Unit
  progress : Nat → Option Nat → Res Unit

def u64Max : Nat := 2 ^ 64 - 1

/-- The loop of `fetch_layer`: the number of bytes and the bytes written. -/
def streamLayer (reference : OciReference) (descriptor : LayerDescriptor) (sink : Sink) :
    Nat → Nat → Bytes → List Bytes → Res (Nat × Bytes)
  | done, _, written, [] => .ok (done, written)
  | done, lastProgress, written, chunk :: chunks =>
    let done := min (done + chunk.length) u64Max
    if descriptor.size < done then
      .error ((FirestoneError.new .checksum
        s!"layer {descriptor.digest} of '{reference.text}' exceeded its declared {descriptor.size} bytes").withHint
        "retry the pull; the registry response was inconsistent")
    else do
      sink.write chunk
      if progressIntervalBytes ≤ done - lastProgress then
        sink.progress done (some descriptor.size)
        streamLayer reference descriptor sink done done (written ++ chunk) chunks
      else streamLayer reference descriptor sink done lastProgress (written ++ chunk) chunks

/-- Streams the response to a layer request and checks its size and digest. -/
def readLayer (reference : OciReference) (descriptor : LayerDescriptor) (sink : Sink) (response : Response) :
    Res Bytes :=
  if response.contentLength.any (· ≠ descriptor.size) then
    let length := response.contentLength.getD 0
    .error ((FirestoneError.new .checksum
      s!"layer {descriptor.digest} of '{reference.text}' declared {length} bytes but the manifest declared {descriptor.size}").withHint
      "retry the pull; the registry response was inconsistent")
  else do
    let (done, written) ← streamLayer reference descriptor sink 0 0 [] response.body.chunks
    if response.body.broken then
      .error ((FirestoneError.new .generic s!"cannot read layer {descriptor.digest} of '{reference.text}'").withHint
        "check network access and retry the pull")
    else if done ≠ descriptor.size then
      .error ((FirestoneError.new .checksum
        s!"layer {descriptor.digest} of '{reference.text}' ended after {done} bytes; the manifest declared {descriptor.size}").withHint
        "retry the pull; the registry response was partial")
    else
      verifyDigest descriptor.digest (hexDigest (env.sha256 written)) s!"layer of '{reference.text}'"
      sink.progress done (some descriptor.size)
      return written

/-- Fetches one layer; the bytes it has written. -/
def fetchLayer (reference : OciReference) (descriptor : LayerDescriptor) (sink : Sink) : Session Bytes := do
  Talk.lift (classifyLayerMediaType descriptor.mediaType)
  Talk.lift (validateDigest descriptor.digest "layer")
  let url ← Talk.lift (endpointUrl env client reference.registry
    s!"/v2/{reference.repository}/blobs/{descriptor.digest}")
  let response ← request env client reference url none
  Talk.lift (readLayer env reference descriptor sink response)

/-! ## Content addressing -/

variable (reference : OciReference) (World : Set Bytes)

/-- Every body that the registry sends is one of these. -/
def Serves (registry : Registry) : Prop := ∀ sent response, registry sent = .ok response → response.body.bytes ∈ World

/-- The bytes can be taken for this document: the registry chooses the content type. -/
def ReadsAs (bytes : Bytes) (document : RegistryDocument) : Prop :=
  ∃ contentType : Option String,
    parseDocument env reference ⟨bytes, digestOf env bytes, contentType.map mediaTypeOf⟩ = .ok document

/-- Taken for an index, the bytes lead to this entry. -/
def Selects (bytes : Bytes) (entry : IndexEntry) : Prop :=
  ∃ entries, ReadsAs env reference bytes (.index entries) ∧
    selectPlatform reference entries client.architecture = .ok entry

/-- The bytes hash to the digest. -/
def HashesTo (digest : String) (bytes : Bytes) : Prop :=
  eqIgnoreAsciiCase (digestHex digest) (hexDigest (env.sha256 bytes)) = true

/-- The client accepts the bytes for the target of a manifest request. -/
structure Accepted (target : String) (bytes : Bytes) : Prop where
  mem : bytes ∈ World
  bounded : bytes.length ≤ maxManifestBytes
  hash : digestChecked target = true → HashesTo env target bytes

/-- A configuration blob for the manifest. -/
structure ConfigBlob (manifest : ImageManifest) (blob : Bytes) : Prop where
  mem : blob ∈ World
  bounded : blob.length ≤ maxConfigBytes
  digest : isSha256Digest manifest.config.digest = true
  hash : HashesTo env manifest.config.digest blob

/-- What a pull makes of a manifest document. -/
def ResolvesTo (bytes : Bytes) (result : ResolvedManifest) : Prop :=
  result.manifestDigest = digestOf env bytes ∧
    ∃ manifest blob, ReadsAs env reference bytes (.manifest manifest) ∧
      manifestLayers reference manifest = .ok result.layers ∧ ConfigBlob env World manifest blob ∧
      env.config blob = some result.config

/-- A pull can end with this manifest document. -/
def Resolvable (bytes : Bytes) : Prop :=
  bytes ∈ World ∧ bytes.length ≤ maxManifestBytes ∧ ∃ result, ResolvesTo env reference World bytes result

/-- The document resolves as a manifest, and taken for an index it leads to another one. -/
def Ambiguous (top : Bytes) : Prop :=
  Resolvable env reference World top ∧ ∃ entry child, Selects env client reference top entry ∧
    Accepted env World entry.digest child ∧ Resolvable env reference World child ∧ child ≠ top

/-- Taken for an index, the document names its manifest by something that is not checked. -/
def Unpinned (top : Bytes) : Prop :=
  ∃ entry, Selects env client reference top entry ∧ digestChecked entry.digest = false ∧
    ∃ child child', Resolvable env reference World child ∧ Resolvable env reference World child' ∧ child ≠ child'

/-- Two resolutions agree on what is pulled. -/
def SamePull (result result' : ResolvedManifest) : Prop :=
  result.manifestDigest = result'.manifestDigest ∧ result.config = result'.config ∧ result.layers = result'.layers

/-- Whatever two registries do, a pull from both has one result, and so has every layer fetched from both. -/
def ContentAddressed : Prop :=
  ∀ registry registry' : Registry, Serves World registry → Serves World registry' →
    ∀ result result' sent sent', resolve env client reference registry [] = (.ok result, sent) →
      resolve env client reference registry' [] = (.ok result', sent') →
      SamePull result result' ∧ ∀ layer ∈ result.layers, ∀ sink sink' before before' after after' written written',
        fetchLayer env client reference layer sink registry before = (.ok written, after) →
        fetchLayer env client reference layer sink' registry' before' = (.ok written', after') → written = written'

end client

/-! ## What a request that succeeded was answered -/

section answers

variable {env : Env} {client : Client} {reference : OciReference} {World : Set Bytes} {registry : Registry}
  {sent sent' : List Request} {target : String}

theorem checkStatus_ok {url : Url} {response response' : Response} (h : checkStatus reference url response = .ok response') :
    response' = response := by
  unfold checkStatus at h
  split at h
  · cases h
    rfl
  · split at h
    · cases h
    · split at h <;> cases h

theorem request_ok {url : Url} {accept : Option String} {response : Response}
    (h : request env client reference url accept registry sent = (.ok response, sent')) :
    ∃ asked, registry asked = .ok response := by
  unfold request at h
  obtain ⟨first, mid, hfirst, h⟩ := Talk.bind_ok h
  have hanswer := (Talk.send_ok hfirst).1
  split at h
  · rw [checkStatus_ok (Talk.lift_ok h).1]
    exact ⟨_, hanswer⟩
  · obtain ⟨challenge, mid, -, h⟩ := Talk.bind_ok h
    obtain ⟨token, mid, -, h⟩ := Talk.bind_ok h
    obtain ⟨retried, mid, hretried, h⟩ := Talk.bind_ok h
    split at h
    · cases (Talk.lift_ok h).1
    · rw [checkStatus_ok (Talk.lift_ok h).1]
      exact ⟨_, (Talk.send_ok hretried).1⟩

theorem readBounded_ok {response : Response} {limit : Nat} {label : String} {bytes : Bytes}
    (h : readBounded response limit label = .ok bytes) : bytes = response.body.bytes ∧ bytes.length ≤ limit := by
  unfold readBounded at h
  split at h
  · cases h
  · rename_i hlen
    split at h
    · cases h
    · cases h
      exact ⟨rfl, Nat.le_of_not_lt hlen⟩

theorem verifyDigest_ok {expected actual label : String} (h : verifyDigest expected actual label = .ok ()) :
    eqIgnoreAsciiCase (digestHex expected) actual = true := by
  unfold verifyDigest at h
  split at h
  · assumption
  · cases h

theorem validateDigest_ok {digest label : String} (h : validateDigest digest label = .ok ()) :
    isSha256Digest digest = true := by
  unfold validateDigest at h
  split at h
  · assumption
  · cases h

theorem digestOf_eq (bytes : Bytes) :
    digestOf env bytes = String.ofList ("sha256".toList ++ ':' :: (hexDigest (env.sha256 bytes)).toList) := by
  refine String.toList_inj.mp ?_
  simp [digestOf, digestAlgorithm, ToString.toString]

theorem digestHex_digestOf (bytes : Bytes) : digestHex (digestOf env bytes) = hexDigest (env.sha256 bytes) := by
  rw [digestHex, digestOf_eq, splitOnce_append (by decide), Option.map_some, Option.getD_some]
  exact String.ofList_toList

theorem readDocument_ok {response : Response} {document : FetchedDocument}
    (h : readDocument env reference target response = .ok document) (hmem : response.body.bytes ∈ World) :
    Accepted env World target document.bytes ∧ ∃ contentType : Option String,
      document = ⟨document.bytes, digestOf env document.bytes, contentType.map mediaTypeOf⟩ := by
  unfold readDocument at h
  obtain ⟨bytes, hbytes, h⟩ := Res.bind_ok h
  obtain ⟨⟨⟩, htarget, h⟩ := Res.bind_ok h
  obtain ⟨⟨⟩, -, h⟩ := Res.bind_ok h
  cases h
  obtain ⟨rfl, hlen⟩ := readBounded_ok hbytes
  refine ⟨⟨hmem, hlen, fun hc => ?_⟩, _, rfl⟩
  rw [checkTarget, if_pos hc, digestHex_digestOf] at htarget
  exact verifyDigest_ok htarget

theorem fetchManifestDocument_ok {document : FetchedDocument} (hs : Serves World registry)
    (h : fetchManifestDocument env client reference target registry sent = (.ok document, sent')) :
    Accepted env World target document.bytes ∧ ∃ contentType : Option String,
      document = ⟨document.bytes, digestOf env document.bytes, contentType.map mediaTypeOf⟩ := by
  unfold fetchManifestDocument at h
  obtain ⟨url, mid, -, h⟩ := Talk.bind_ok h
  obtain ⟨response, mid, hresponse, h⟩ := Talk.bind_ok h
  obtain ⟨asked, hasked⟩ := request_ok hresponse
  exact readDocument_ok (Talk.lift_ok h).1 (hs asked response hasked)

theorem parseDocument_manifest {document : FetchedDocument} {manifest : ImageManifest}
    (h : parseDocument env reference document = .ok (.manifest manifest)) :
    env.manifest document.bytes = some manifest := by
  have hbody : ∀ m, (parseManifestBody env reference document.bytes).map RegistryDocument.manifest = .ok (.manifest m) →
      env.manifest document.bytes = some m := by
    intro m hm
    unfold parseManifestBody at hm
    split at hm
    · cases hm
      assumption
    · cases hm
  unfold parseDocument at h
  split at h
  · cases h
  · dsimp only at h
    split at h
    · cases h
    · split at h
      · exact hbody _ h
      · split at h
        · cases h
        · split at h
          · cases h
          · exact hbody _ h
          · cases h

theorem parseDocument_index {document : FetchedDocument} {entries : List IndexEntry}
    (h : parseDocument env reference document = .ok (.index entries)) :
    ∃ probe, env.probe document.bytes = some probe ∧ entries = probe.manifests.getD [] := by
  have hbody : (parseManifestBody env reference document.bytes).map RegistryDocument.manifest ≠ .ok (.index entries) := by
    unfold parseManifestBody
    split <;> exact fun h => nomatch h
  unfold parseDocument at h
  split at h
  · cases h
  · rename_i probe hprobe
    refine ⟨probe, hprobe, ?_⟩
    dsimp only at h
    split at h
    · cases h
      rfl
    · split at h
      · exact absurd h hbody
      · split at h
        · cases h
        · split at h
          · rename_i hsome
            cases h
            rw [hsome]
            rfl
          · exact absurd h hbody
          · cases h

/-- The manifest in a document does not depend on the content type. -/
theorem ReadsAs.manifest_eq {bytes : Bytes} {m m' : ImageManifest} (h : ReadsAs env reference bytes (.manifest m))
    (h' : ReadsAs env reference bytes (.manifest m')) : m = m' := by
  obtain ⟨_, h⟩ := h
  obtain ⟨_, h'⟩ := h'
  have hm := parseDocument_manifest h
  have hm' := parseDocument_manifest h'
  exact Option.some.inj (hm.symm.trans hm')

/-- Nor does the entry selected from it. -/
theorem Selects.eq {bytes : Bytes} {e e' : IndexEntry} (h : Selects env client reference bytes e)
    (h' : Selects env client reference bytes e') : e = e' := by
  obtain ⟨entries, ⟨_, hparse⟩, hsel⟩ := h
  obtain ⟨entries', ⟨_, hparse'⟩, hsel'⟩ := h'
  obtain ⟨probe, hprobe, rfl⟩ := parseDocument_index hparse
  obtain ⟨probe', hprobe', rfl⟩ := parseDocument_index hparse'
  obtain rfl : probe = probe' := Option.some.inj (hprobe.symm.trans hprobe')
  exact Except.ok.inj (hsel.symm.trans hsel')

/-- The document a resolution ends with: the one named by the reference, or the entry selected from it. -/
def Reaches (env : Env) (client : Client) (reference : OciReference) (World : Set Bytes) (top bytes : Bytes) : Prop :=
  bytes = top ∨ ∃ entry, Selects env client reference top entry ∧ Accepted env World entry.digest bytes

theorem locate_ok {located : Located} (hs : Serves World registry)
    (h : locate env client reference registry sent = (.ok located, sent')) :
    ∃ top bytes, Accepted env World reference.target top ∧ Reaches env client reference World top bytes ∧
      bytes ∈ World ∧ bytes.length ≤ maxManifestBytes ∧ located.digest = digestOf env bytes ∧
      ReadsAs env reference bytes (.manifest located.manifest) := by
  unfold locate at h
  obtain ⟨top, mid, htop, h⟩ := Talk.bind_ok h
  obtain ⟨hacc, ct, hdoc⟩ := fetchManifestDocument_ok hs htop
  obtain ⟨document, mid, hparse, h⟩ := Talk.bind_ok h
  have hread : ReadsAs env reference top.bytes document := ⟨ct, hdoc ▸ (Talk.lift_ok hparse).1⟩
  cases document with
  | manifest manifest =>
    cases Talk.pure_ok h
    exact ⟨top.bytes, top.bytes, hacc, .inl rfl, hacc.mem, hacc.bounded, by rw [hdoc], hread⟩
  | index entries =>
    obtain ⟨selected, mid, hsel, h⟩ := Talk.bind_ok h
    unfold locateChild at h
    obtain ⟨child, mid, hchild, h⟩ := Talk.bind_ok h
    obtain ⟨hacc', ct', hdoc'⟩ := fetchManifestDocument_ok hs hchild
    obtain ⟨document', mid, hparse', h⟩ := Talk.bind_ok h
    have hread' : ReadsAs env reference child.bytes document' := ⟨ct', hdoc' ▸ (Talk.lift_ok hparse').1⟩
    cases document' with
    | manifest manifest =>
      cases Talk.pure_ok h
      refine ⟨top.bytes, child.bytes, hacc, .inr ⟨selected, ⟨entries, hread, (Talk.lift_ok hsel).1⟩, hacc'⟩, hacc'.mem,
        hacc'.bounded, ?_, hread'⟩
      rw [hdoc']
    | index entries' => cases (Talk.lift_ok h).1

theorem fetchBlobBytes_ok {digest label : String} {limit : Nat} {bytes : Bytes} (hs : Serves World registry)
    (h : fetchBlobBytes env client reference digest limit label registry sent = (.ok bytes, sent')) :
    bytes ∈ World ∧ bytes.length ≤ limit ∧ HashesTo env digest bytes := by
  unfold fetchBlobBytes at h
  obtain ⟨url, mid, -, h⟩ := Talk.bind_ok h
  obtain ⟨response, mid, hresponse, h⟩ := Talk.bind_ok h
  obtain ⟨asked, hasked⟩ := request_ok hresponse
  have h := (Talk.lift_ok h).1
  unfold readBlob at h
  obtain ⟨bytes', hbytes, h⟩ := Res.bind_ok h
  obtain ⟨⟨⟩, hverify, h⟩ := Res.bind_ok h
  cases h
  obtain ⟨rfl, hlen⟩ := readBounded_ok hbytes
  exact ⟨hs asked response hasked, hlen, verifyDigest_ok hverify⟩

theorem resolve_ok {result : ResolvedManifest} (hs : Serves World registry)
    (h : resolve env client reference registry sent = (.ok result, sent')) :
    ∃ top bytes, Accepted env World reference.target top ∧ Reaches env client reference World top bytes ∧
      bytes ∈ World ∧ bytes.length ≤ maxManifestBytes ∧ ResolvesTo env reference World bytes result := by
  unfold resolve at h
  obtain ⟨located, mid, hlocated, h⟩ := Talk.bind_ok h
  obtain ⟨top, bytes, hacc, hreach, hmem, hlen, hdigest, hread⟩ := locate_ok hs hlocated
  obtain ⟨layers, mid, hlayers, h⟩ := Talk.bind_ok h
  obtain ⟨⟨⟩, mid, hvalid, h⟩ := Talk.bind_ok h
  obtain ⟨blob, mid, hblob, h⟩ := Talk.bind_ok h
  obtain ⟨config, mid, hconfig, h⟩ := Talk.bind_ok h
  cases Talk.pure_ok h
  obtain ⟨hbmem, hblen, hbhash⟩ := fetchBlobBytes_ok hs hblob
  have hparsed : env.config blob = some config := by
    have hc := (Talk.lift_ok hconfig).1
    unfold parseConfig at hc
    split at hc
    · cases hc
      assumption
    · cases hc
  exact ⟨top, bytes, hacc, hreach, hmem, hlen, hdigest, located.manifest, blob, hread, (Talk.lift_ok hlayers).1,
    ⟨hbmem, hblen, validateDigest_ok (Talk.lift_ok hvalid).1, hbhash⟩, hparsed⟩

/-- The loop writes the chunks and nothing else. -/
theorem streamLayer_ok {descriptor : LayerDescriptor} {sink : Sink} {chunks : List Bytes} {done last total : Nat}
    {written out : Bytes} (h : streamLayer reference descriptor sink done last written chunks = .ok (total, out)) :
    out = written ++ chunks.flatten := by
  induction chunks generalizing done last written with
  | nil =>
    cases h
    simp
  | cons chunk chunks ih =>
    simp only [streamLayer] at h
    split at h
    · cases h
    · obtain ⟨⟨⟩, -, h⟩ := Res.bind_ok h
      split at h
      · obtain ⟨⟨⟩, -, h⟩ := Res.bind_ok h
        rw [ih h, List.append_assoc, List.flatten_cons]
      · rw [ih h, List.append_assoc, List.flatten_cons]

theorem fetchLayer_ok {descriptor : LayerDescriptor} {sink : Sink} {written : Bytes} (hs : Serves World registry)
    (h : fetchLayer env client reference descriptor sink registry sent = (.ok written, sent')) :
    written ∈ World ∧ HashesTo env descriptor.digest written := by
  unfold fetchLayer at h
  obtain ⟨⟨⟩, mid, -, h⟩ := Talk.bind_ok h
  obtain ⟨⟨⟩, mid, -, h⟩ := Talk.bind_ok h
  obtain ⟨url, mid, -, h⟩ := Talk.bind_ok h
  obtain ⟨response, mid, hresponse, h⟩ := Talk.bind_ok h
  obtain ⟨asked, hasked⟩ := request_ok hresponse
  have h := (Talk.lift_ok h).1
  unfold readLayer at h
  split at h
  · cases h
  · obtain ⟨⟨done, out⟩, hstream, h⟩ := Res.bind_ok h
    dsimp only at h
    split at h
    · cases h
    · split at h
      · cases h
      · obtain ⟨⟨⟩, hverify, h⟩ := Res.bind_ok h
        obtain ⟨⟨⟩, -, h⟩ := Res.bind_ok h
        cases h
        have hout := streamLayer_ok hstream
        rw [List.nil_append] at hout
        subst hout
        exact ⟨hs asked response hasked, verifyDigest_ok hverify⟩

end answers

/-! ## One document, one result -/

section unique

variable {env : Env} {client : Client} {reference : OciReference} {World : Set Bytes} (hinj : World.InjOn env.sha256)

include hinj

theorem HashesTo.eq {digest : String} {a b : Bytes} (ha : HashesTo env digest a) (hb : HashesTo env digest b)
    (hma : a ∈ World) (hmb : b ∈ World) : a = b :=
  hinj hma hmb (eqIgnoreAsciiCase_hexDigest ha hb)

theorem digestOf_inj {a b : Bytes} (hma : a ∈ World) (hmb : b ∈ World) (h : digestOf env a = digestOf env b) : a = b := by
  have hhex := congrArg digestHex h
  rw [digestHex_digestOf, digestHex_digestOf] at hhex
  exact hinj hma hmb (hexDigest_inj hhex)

theorem ResolvesTo.samePull {bytes : Bytes} {result result' : ResolvedManifest}
    (h : ResolvesTo env reference World bytes result) (h' : ResolvesTo env reference World bytes result') :
    SamePull result result' := by
  obtain ⟨hd, m, blob, hm, hlayers, hblob, hconfig⟩ := h
  obtain ⟨hd', m', blob', hm', hlayers', hblob', hconfig'⟩ := h'
  obtain rfl := hm.manifest_eq hm'
  obtain rfl := HashesTo.eq hinj hblob.hash hblob'.hash hblob.mem hblob'.mem
  exact ⟨hd.trans hd'.symm, Option.some.inj (hconfig.symm.trans hconfig'),
    Except.ok.inj (hlayers.symm.trans hlayers')⟩

/-- Neither ambiguous nor unpinned, the document leads to one manifest. -/
theorem Reaches.eq {top a b : Bytes} (hamb : ¬ Ambiguous env client reference World top)
    (hunp : ¬ Unpinned env client reference World top) (ha : Reaches env client reference World top a)
    (hb : Reaches env client reference World top b) (hra : Resolvable env reference World a)
    (hrb : Resolvable env reference World b) : a = b := by
  rcases ha with rfl | ⟨e, he, hacc⟩
  · rcases hb with rfl | ⟨e, he, hacc⟩
    · rfl
    · by_contra hne
      exact hamb ⟨hra, e, b, he, hacc, hrb, fun h => hne h.symm⟩
  · rcases hb with rfl | ⟨e', he', hacc'⟩
    · by_contra hne
      exact hamb ⟨hrb, e, a, he, hacc, hra, hne⟩
    · obtain rfl := he.eq he'
      cases hc : digestChecked e.digest with
      | true => exact HashesTo.eq hinj (hacc.hash hc) (hacc'.hash hc) hacc.mem hacc'.mem
      | false =>
        by_contra hne
        exact hunp ⟨e, he, hc, a, b, hra, hrb, hne⟩

end unique

theorem digestChecked_of_isSha256Digest {digest : String} (h : isSha256Digest digest = true) :
    digestChecked digest = true := by
  unfold isSha256Digest at h
  obtain ⟨⟨algorithm, hex⟩, hsplit, h⟩ := (Option.any_eq_true _ _).mp h
  simp only [Bool.and_eq_true, decide_eq_true_eq] at h
  unfold splitOnce at hsplit
  split at hsplit
  · rename_i hmem
    cases hsplit
    have htake := congrArg String.toList h.1.1
    rw [String.toList_ofList] at htake
    rw [digestChecked, Bool.and_eq_true, List.isPrefixOf_iff_prefix, List.contains_iff_mem, ← htake]
    exact ⟨List.takeWhile_prefix _, hmem⟩
  · cases hsplit

/-! ## A registry that goes by a script -/

section script

variable {env : Env} {client : Client} {reference : OciReference} {World : Set Bytes}

/-- The whole of the bytes in one read. -/
def wholeBody : Bytes → Body
  | [] => ⟨[], false, List.not_mem_nil⟩
  | b :: bytes => ⟨[b :: bytes], false, by simp⟩

theorem bytes_wholeBody (bytes : Bytes) : (wholeBody bytes).bytes = bytes := by
  cases bytes <;> simp [wholeBody, Body.bytes]

theorem broken_wholeBody (bytes : Bytes) : (wholeBody bytes).broken = false := by
  cases bytes <;> rfl

/-- A response with these bytes under this content type. -/
def answer (bytes : Bytes) (contentType : Option String) : Response :=
  ⟨200, contentType.toList.map ("content-type", ·), wholeBody bytes, none⟩

def scripted (answers : List Response) : Registry := fun sent =>
  match answers[sent.length - 1]? with
  | some response => .ok response
  | none => .error (FirestoneError.new .generic "connection refused")

theorem scripted_serves {l : List (Bytes × Option String)} (h : ∀ x ∈ l, x.1 ∈ World) :
    Serves World (scripted (l.map fun x => answer x.1 x.2)) := by
  intro sent response hr
  unfold scripted at hr
  split at hr
  · rename_i found hfound
    cases hr
    obtain ⟨x, hx, rfl⟩ := List.mem_map.mp (List.mem_of_getElem? hfound)
    rw [answer, bytes_wholeBody]
    exact h x hx
  · cases hr

variable {answers : List Response} {sent : List Request} {bytes : Bytes} {contentType : Option String}

theorem request_scripted {url : Url} {accept : Option String} (h : answers[sent.length]? = some (answer bytes contentType)) :
    ∃ asked : List Request, asked.length = sent.length + 1 ∧
      request env client reference url accept (scripted answers) sent = (.ok (answer bytes contentType), asked) := by
  have hsend : ∀ q : Request, Talk.send q (scripted answers) sent = (.ok (answer bytes contentType), sent ++ [q]) := by
    intro q
    have hlen : (sent ++ [q]).length - 1 = sent.length := by simp
    rw [Talk.send, scripted, hlen, h]
  let credential := if url.scheme = "https" then client.credentials.lookup reference.registry else none
  refine ⟨sent ++ [⟨url, accepting accept ++ authorization credential⟩], by simp, ?_⟩
  unfold request
  rw [Talk.bind_run (hsend _), if_pos (by simp [answer])]
  exact Talk.lift_run (if_pos (by simp [answer]))

theorem header_answer {name : String} (hname : eqIgnoreAsciiCase "content-type" name = false) :
    (answer bytes contentType).header name = none := by
  cases contentType <;> simp [answer, Response.header, hname]

theorem contentType_answer : (answer bytes contentType).header "content-type" = contentType := by
  cases contentType with
  | none => rfl
  | some value => simp [answer, Response.header, eqIgnoreAsciiCase_refl]

theorem readBounded_answer {limit : Nat} {label : String} (h : bytes.length ≤ limit) :
    readBounded (answer bytes contentType) limit label = .ok bytes := by
  rw [readBounded, answer, bytes_wholeBody, if_neg (by omega), broken_wholeBody]
  rfl

theorem verifyDigest_hashesTo {digest label : String} (h : HashesTo env digest bytes) :
    verifyDigest digest (hexDigest (env.sha256 bytes)) label = .ok () := if_pos h

theorem readDocument_answer {target : String} (h : Accepted env World target bytes) :
    readDocument env reference target (answer bytes contentType) =
      .ok ⟨bytes, digestOf env bytes, contentType.map mediaTypeOf⟩ := by
  have htarget : checkTarget reference target (digestOf env bytes) = .ok () := by
    unfold checkTarget
    split
    · rename_i hc
      rw [digestHex_digestOf]
      exact verifyDigest_hashesTo (h.hash hc)
    · rfl
  unfold readDocument
  rw [readBounded_answer h.bounded, header_answer (by decide), contentType_answer]
  change (checkTarget reference target (digestOf env bytes) >>= _) = _
  rw [htarget]
  rfl

variable (hurl : ∀ path, (env.parseUrl (endpointText client reference.registry path)).isSome = true)

include hurl

theorem endpointUrl_run (path : String) : ∃ url, endpointUrl env client reference.registry path = .ok url := by
  obtain ⟨url, h⟩ := Option.isSome_iff_exists.mp (hurl path)
  exact ⟨url, by rw [endpointUrl, h]⟩

theorem fetchManifestDocument_scripted {target : String} (hacc : Accepted env World target bytes)
    (h : answers[sent.length]? = some (answer bytes contentType)) :
    ∃ asked : List Request, asked.length = sent.length + 1 ∧
      fetchManifestDocument env client reference target (scripted answers) sent =
        (.ok ⟨bytes, digestOf env bytes, contentType.map mediaTypeOf⟩, asked) := by
  obtain ⟨url, hu⟩ := endpointUrl_run hurl s!"/v2/{reference.repository}/manifests/{target}"
  obtain ⟨asked, hlen, hrequest⟩ := request_scripted h
  refine ⟨asked, hlen, ?_⟩
  unfold fetchManifestDocument
  rw [Talk.bind_run (Talk.lift_run hu), Talk.bind_run hrequest]
  exact Talk.lift_run (readDocument_answer hacc)

theorem fetchBlobBytes_scripted {manifest : ImageManifest} (hblob : ConfigBlob env World manifest bytes) {label : String}
    (h : answers[sent.length]? = some (answer bytes contentType)) :
    ∃ asked : List Request, fetchBlobBytes env client reference manifest.config.digest maxConfigBytes label
      (scripted answers) sent = (.ok bytes, asked) := by
  obtain ⟨url, hu⟩ := endpointUrl_run hurl s!"/v2/{reference.repository}/blobs/{manifest.config.digest}"
  obtain ⟨asked, -, hrequest⟩ := request_scripted h
  refine ⟨asked, ?_⟩
  unfold fetchBlobBytes
  rw [Talk.bind_run (Talk.lift_run hu), Talk.bind_run hrequest]
  refine Talk.lift_run ?_
  rw [readBlob, readBounded_answer hblob.bounded]
  change (verifyDigest manifest.config.digest (hexDigest (env.sha256 bytes)) _ >>= _) = _
  rw [verifyDigest_hashesTo hblob.hash]
  rfl

/-- From the manifest on, a registry with the configuration blob is all it takes. -/
theorem resolve_scripted {located : Located} {blob : Bytes} {layers : List LayerDescriptor} {config : OciImageConfig}
    {asked : List Request} (hlocate : locate env client reference (scripted answers) [] = (.ok located, asked))
    (hlayers : manifestLayers reference located.manifest = .ok layers)
    (hblob : ConfigBlob env World located.manifest blob) (hconfig : env.config blob = some config)
    (h : answers[asked.length]? = some (answer blob none)) :
    ∃ result sent', resolve env client reference (scripted answers) [] = (.ok result, sent') ∧
      result.manifestDigest = located.digest := by
  obtain ⟨sent', hfetch⟩ := fetchBlobBytes_scripted hurl hblob h
  refine ⟨⟨reference.text, located.digest, located.indexDigest, located.mediaType, located.manifest.config.digest, config,
    layers⟩, sent', ?_, rfl⟩
  have hvalid : validateDigest located.manifest.config.digest "image config" = .ok () := if_pos hblob.digest
  have hparse : parseConfig env reference blob = .ok config := by rw [parseConfig, hconfig]
  unfold resolve
  rw [Talk.bind_run hlocate, Talk.bind_run (Talk.lift_run hlayers), Talk.bind_run (Talk.lift_run hvalid),
    Talk.bind_run hfetch, Talk.bind_run (Talk.lift_run hparse)]
  rfl

theorem locate_scripted_manifest {manifest : ImageManifest} (hacc : Accepted env World reference.target bytes)
    (hread : parseDocument env reference ⟨bytes, digestOf env bytes, contentType.map mediaTypeOf⟩ = .ok (.manifest manifest))
    (h : answers[0]? = some (answer bytes contentType)) :
    ∃ (located : Located) (asked : List Request), asked.length = 1 ∧ located.manifest = manifest ∧
      located.digest = digestOf env bytes ∧
      locate env client reference (scripted answers) [] = (.ok located, asked) := by
  obtain ⟨asked, hasked, htop⟩ := fetchManifestDocument_scripted hurl hacc (show answers[([] : List Request).length]? = _ from h)
  refine ⟨⟨none, digestOf env bytes, (contentType.map mediaTypeOf).getD mediaTypeOciManifest, manifest⟩, asked, hasked, rfl,
    rfl, ?_⟩
  unfold locate
  rw [Talk.bind_run htop, Talk.bind_run (Talk.lift_run hread)]
  rfl

theorem locate_scripted_index {top : Bytes} {topType : Option String} {entries : List IndexEntry} {entry : IndexEntry}
    {manifest : ImageManifest} (htop : Accepted env World reference.target top)
    (hindex : parseDocument env reference ⟨top, digestOf env top, topType.map mediaTypeOf⟩ = .ok (.index entries))
    (hsel : selectPlatform reference entries client.architecture = .ok entry)
    (hacc : Accepted env World entry.digest bytes)
    (hread : parseDocument env reference ⟨bytes, digestOf env bytes, contentType.map mediaTypeOf⟩ = .ok (.manifest manifest))
    (h0 : answers[0]? = some (answer top topType)) (h1 : answers[1]? = some (answer bytes contentType)) :
    ∃ (located : Located) (asked : List Request), asked.length = 2 ∧ located.manifest = manifest ∧
      located.digest = digestOf env bytes ∧
      locate env client reference (scripted answers) [] = (.ok located, asked) := by
  obtain ⟨asked, hasked, hfirst⟩ := fetchManifestDocument_scripted hurl htop (show answers[([] : List Request).length]? = _ from h0)
  have hasked : asked.length = 1 := hasked
  have h1' : answers[asked.length]? = some (answer bytes contentType) := by rw [hasked, h1]
  obtain ⟨asked', hasked', hsecond⟩ := fetchManifestDocument_scripted hurl hacc h1'
  refine ⟨⟨some (digestOf env top), digestOf env bytes,
    (contentType.map mediaTypeOf).getD (entry.mediaType.getD mediaTypeOciManifest), manifest⟩, asked', by omega, rfl, rfl, ?_⟩
  unfold locate
  rw [Talk.bind_run hfirst, Talk.bind_run (Talk.lift_run hindex)]
  dsimp only
  rw [Talk.bind_run (Talk.lift_run hsel), locateChild, Talk.bind_run hsecond, Talk.bind_run (Talk.lift_run hread)]
  rfl

/-- Every manifest that can be reached is the result of some pull. -/
theorem exists_pull {top : Bytes} (htop : Accepted env World reference.target top)
    (hreach : Reaches env client reference World top bytes) (hres : Resolvable env reference World bytes) :
    ∃ registry result sent', Serves World registry ∧ resolve env client reference registry [] = (.ok result, sent') ∧
      result.manifestDigest = digestOf env bytes := by
  obtain ⟨hmem, hlen, result, -, manifest, blob, ⟨ct, hread⟩, hlayers, hblob, hconfig⟩ := hres
  rcases hreach with rfl | ⟨entry, ⟨entries, ⟨ct', hindex⟩, hsel⟩, hacc⟩
  · have hserves : Serves World (scripted [answer bytes ct, answer blob none]) :=
      scripted_serves (l := [(bytes, ct), (blob, none)]) (by simp [hmem, hblob.mem])
    have h0 : [answer bytes ct, answer blob none][0]? = some (answer bytes ct) := rfl
    have h1 : [answer bytes ct, answer blob none][1]? = some (answer blob none) := rfl
    obtain ⟨located, asked, hasked, rfl, hdigest, hlocate⟩ := locate_scripted_manifest hurl htop hread h0
    obtain ⟨result, sent', hresolve, hd⟩ := resolve_scripted hurl hlocate hlayers hblob hconfig (by rw [hasked, h1])
    exact ⟨_, result, sent', hserves, hresolve, hd.trans hdigest⟩
  · have hserves : Serves World (scripted [answer top ct', answer bytes ct, answer blob none]) :=
      scripted_serves (l := [(top, ct'), (bytes, ct), (blob, none)])
        (by simp [htop.mem, hmem, hblob.mem])
    have h0 : [answer top ct', answer bytes ct, answer blob none][0]? = some (answer top ct') := rfl
    have h1 : [answer top ct', answer bytes ct, answer blob none][1]? = some (answer bytes ct) := rfl
    have h2 : [answer top ct', answer bytes ct, answer blob none][2]? = some (answer blob none) := rfl
    obtain ⟨located, asked, hasked, rfl, hdigest, hlocate⟩ := locate_scripted_index hurl htop hindex hsel hacc hread h0 h1
    obtain ⟨result, sent', hresolve, hd⟩ := resolve_scripted hurl hlocate hlayers hblob hconfig (by rw [hasked, h2])
    exact ⟨_, result, sent', hserves, hresolve, hd.trans hdigest⟩

end script

/-! ## Pulls by digest -/

section declared

variable {env : Env} {client : Client} {reference : OciReference} {World : Set Bytes} {top : Bytes}

/-- A document that declares its media type reads one way only. -/
theorem not_ambiguous_of_declared {probe : DocumentProbe} {mediaType : String} (hprobe : env.probe top = some probe)
    (hdeclared : probe.mediaType = some mediaType) : ¬ Ambiguous env client reference World top := by
  have hsame : ∀ ct : Option String, parseDocument env reference ⟨top, digestOf env top, ct.map mediaTypeOf⟩ =
      parseDocument env reference ⟨top, digestOf env top, none⟩ := by
    intro ct
    simp only [parseDocument, hprobe, hdeclared, Option.some_or]
  rintro ⟨⟨-, -, _, -, manifest, _, ⟨ct, hread⟩, -, -, -⟩, entry, child, ⟨entries, ⟨ct', hindex⟩, -⟩, -, -, -⟩
  rw [hsame] at hread hindex
  rw [hread] at hindex
  cases hindex

theorem readsAs_manifest {probe : DocumentProbe} {mediaType : String} {manifest : ImageManifest}
    (hprobe : env.probe top = some probe) (hdeclared : probe.mediaType = some mediaType)
    (hindex : isIndexMediaType mediaType = false) (hmanifest : isManifestMediaType mediaType = true)
    (hbody : env.manifest top = some manifest) : ReadsAs env reference top (.manifest manifest) := by
  refine ⟨none, ?_⟩
  simp only [parseDocument, hprobe, hdeclared, Option.some_or, Option.getD_some, hindex, hmanifest, parseManifestBody, hbody]
  rfl

theorem readsAs_index {probe : DocumentProbe} {mediaType : String} (hprobe : env.probe top = some probe)
    (hdeclared : probe.mediaType = some mediaType) (hindex : isIndexMediaType mediaType = true) :
    ReadsAs env reference top (.index (probe.manifests.getD [])) := by
  refine ⟨none, ?_⟩
  simp only [parseDocument, hprobe, hdeclared, Option.some_or, Option.getD_some, hindex]
  rfl

/-- An index that names its manifests by SHA-256 pins them. -/
theorem not_unpinned_of_sha256 (h : ∀ entry, Selects env client reference top entry → isSha256Digest entry.digest = true) :
    ¬ Unpinned env client reference World top := by
  rintro ⟨entry, hsel, hunchecked, -⟩
  rw [digestChecked_of_isSha256Digest (h entry hsel)] at hunchecked
  cases hunchecked

end declared

/-! ## Sample documents -/

def ofHex : List Char → Bytes
  | hi :: lo :: rest => UInt8.ofNat ("0123456789abcdef".toList.idxOf hi * 16 + "0123456789abcdef".toList.idxOf lo) :: ofHex rest
  | _ => []

def emptyDigest : String := "sha256:e3b0c44298fc1c149afbf4c8996fb92427ae41e4649b934ca495991b7852b855"
def sampleConfigDigest : String := "sha256:44136fa355b3678a1146ad16f7e8649e94fb4fc21fe77e8310c060f61caaff8a"
def sampleManifestDigest : String := "sha256:a7d3463eb282b6bf5137db6c7d7a3d5c70f87bfd565a1e16679b3753f8809937"
def sampleSha512 : String := "sha512:3d8d04fd3e6a025c055b3e5ce8654e99c52c9abcae635174368ca437374a1853" ++
  "31c0c3e45ac7109d442e3875619c98bca01bca62d2d15decd1ccc3f41a35e983"

def layerText : String :=
  "\x7b\"mediaType\":\"application/vnd.oci.image.layer.v1.tar+gzip\",\"digest\":\"" ++ emptyDigest ++ "\",\"size\":0\x7d"

def configText : String := "\"config\":\x7b\"digest\":\"" ++ sampleConfigDigest ++ "\"\x7d"

def manifestText (layers : String) : String :=
  "\x7b\"mediaType\":\"application/vnd.oci.image.manifest.v1+json\"," ++ configText ++ ",\"layers\":[" ++ layers ++ "]\x7d"

def manifestsText (digest : String) : String :=
  "\"manifests\":[\x7b\"digest\":\"" ++ digest ++ "\",\"platform\":\x7b\"os\":\"linux\",\"architecture\":\"amd64\"\x7d\x7d]"

def indexText (digest : String) : String :=
  "\x7b\"mediaType\":\"application/vnd.oci.image.index.v1+json\"," ++ manifestsText digest ++ "\x7d"

def sampleConfig : Bytes := bytes "\x7b\x7d"
def oneLayer : Bytes := bytes (manifestText layerText)
def twoLayers : Bytes := bytes (manifestText (layerText ++ "," ++ layerText))
def pinnedIndex : Bytes := bytes (indexText sampleManifestDigest)
def sha512Index : Bytes := bytes (indexText sampleSha512)

/-- The documents with their SHA-256. -/
def samples : List (Bytes × String) :=
  [(sampleConfig, "44136fa355b3678a1146ad16f7e8649e94fb4fc21fe77e8310c060f61caaff8a"),
    (oneLayer, "a7d3463eb282b6bf5137db6c7d7a3d5c70f87bfd565a1e16679b3753f8809937"),
    (twoLayers, "dc20ccd06e5a328e87413b081bb26d2f0350f1f3aa0983810d4a7c54a0ee3a8d"),
    (pinnedIndex, "65bd7728df24effd3d2bd18df3b8593ad79fb397cc90b099235ec9991a1398d2"),
    (sha512Index, "52548c21e5c1fb41086d2c5a730f05b44cadd8c89eba8c3f9304459903d6515b")]

def sampleLayer : BlobDescriptor := ⟨mediaTypeOciLayerGzip, emptyDigest, 0⟩
def sampleEntry (digest : String) : IndexEntry := ⟨none, digest, some ⟨"linux", "amd64", none, none⟩, none⟩
def sampleConfigBlob : BlobDescriptor := ⟨"", sampleConfigDigest, 0⟩

def sampleEnv : Env where
  sha256 b := ofHex ((samples.lookup b).getD "").toList
  probe b := [(oneLayer, ⟨some mediaTypeOciManifest, none, some sampleConfigBlob⟩),
    (twoLayers, ⟨some mediaTypeOciManifest, none, some sampleConfigBlob⟩),
    (pinnedIndex, ⟨some mediaTypeOciIndex, some [sampleEntry sampleManifestDigest], none⟩),
    (sha512Index, ⟨some mediaTypeOciIndex, some [sampleEntry sampleSha512], none⟩)].lookup b
  manifest b := [(oneLayer, ⟨sampleConfigBlob, [sampleLayer]⟩), (twoLayers, ⟨sampleConfigBlob, [sampleLayer, sampleLayer]⟩)].lookup b
  config b := [(sampleConfig, ⟨[], [], [], none, none⟩)].lookup b
  token _ := none
  parseUrl text := some ⟨"https", some "ghcr.io", none, text⟩
  appendPair url name value := { url with text := s!"{url.text}&{name}={value}" }

def sampleClient : Client := ⟨.x86_64, [], []⟩

def sampleWorld : Set Bytes := { b | b ∈ samples.map Prod.fst }

/-- What the environment makes of the documents. All of it is evaluated at once, since most of the work is in their texts. -/
theorem samples_evaluated :
    ((samples.map Prod.fst).map sampleEnv.sha256).Nodup ∧ (∀ b ∈ samples.map Prod.fst, b.length ≤ maxConfigBytes) ∧
    (∀ b ∈ [oneLayer, twoLayers], sampleEnv.probe b = some ⟨some mediaTypeOciManifest, none, some sampleConfigBlob⟩) ∧
    sampleEnv.probe pinnedIndex = some ⟨some mediaTypeOciIndex, some [sampleEntry sampleManifestDigest], none⟩ ∧
    sampleEnv.probe sha512Index = some ⟨some mediaTypeOciIndex, some [sampleEntry sampleSha512], none⟩ ∧
    sampleEnv.manifest oneLayer = some ⟨sampleConfigBlob, [sampleLayer]⟩ ∧
    sampleEnv.manifest twoLayers = some ⟨sampleConfigBlob, [sampleLayer, sampleLayer]⟩ ∧
    (∀ sample ∈ samples, hexDigest (sampleEnv.sha256 sample.1) = sample.2) := by
  decide +kernel

theorem sampleWorld_injOn : sampleWorld.InjOn sampleEnv.sha256 :=
  fun _ ha _ hb => List.inj_on_of_nodup_map samples_evaluated.1 ha hb

theorem length_sample {b : Bytes} (h : b ∈ sampleWorld) : b.length ≤ maxConfigBytes := samples_evaluated.2.1 b h

theorem mem_sampleWorld {sample : Bytes × String} (h : sample ∈ samples) : sample.1 ∈ sampleWorld := List.mem_map_of_mem h

/-- A document with its digest in `samples` hashes to it. -/
theorem hash_sample {b : Bytes} {hex digest : String} (h : (b, hex) ∈ samples)
    (hdigest : eqIgnoreAsciiCase (digestHex digest) hex = true) :
    eqIgnoreAsciiCase (digestHex digest) (hexDigest (sampleEnv.sha256 b)) = true := by
  rw [samples_evaluated.2.2.2.2.2.2.2 (b, hex) h]
  exact hdigest

/-- A reference that pins a document by its digest. -/
def pinned (digest : { d : String // isSha256Digest d = true }) : OciReference := ⟨"ghcr.io", "owner/app", .digest digest⟩

def pinnedIndexDigest : { d : String // isSha256Digest d = true } :=
  ⟨"sha256:65bd7728df24effd3d2bd18df3b8593ad79fb397cc90b099235ec9991a1398d2", by decide⟩

def sha512IndexDigest : { d : String // isSha256Digest d = true } :=
  ⟨"sha256:52548c21e5c1fb41086d2c5a730f05b44cadd8c89eba8c3f9304459903d6515b", by decide⟩

theorem sampleConfig_blob (layers : List BlobDescriptor) :
    ConfigBlob sampleEnv sampleWorld ⟨sampleConfigBlob, layers⟩ sampleConfig := by
  have hmem : sampleConfig ∈ sampleWorld := mem_sampleWorld (List.mem_cons_self ..)
  have hdigest : isSha256Digest sampleConfigDigest = true := by decide
  have hhash : eqIgnoreAsciiCase (digestHex sampleConfigDigest) (hexDigest (sampleEnv.sha256 sampleConfig)) = true :=
    hash_sample (List.mem_cons_self ..) (by decide)
  exact ⟨hmem, length_sample hmem, hdigest, hhash⟩

/-- The sample manifests resolve with the sample configuration. -/
theorem sampleManifest_resolvable {reference : OciReference} {bytes : Bytes} (layers : List BlobDescriptor)
    (resolved : List LayerDescriptor) (hmem : bytes ∈ sampleWorld)
    (hprobe : sampleEnv.probe bytes = some ⟨some mediaTypeOciManifest, none, some sampleConfigBlob⟩)
    (hmanifest : sampleEnv.manifest bytes = some ⟨sampleConfigBlob, layers⟩)
    (hlayers : manifestLayers reference ⟨sampleConfigBlob, layers⟩ = .ok resolved) :
    Resolvable sampleEnv reference sampleWorld bytes := by
  have hread : ReadsAs sampleEnv reference bytes (.manifest ⟨sampleConfigBlob, layers⟩) :=
    readsAs_manifest hprobe rfl (by decide) (by decide) hmanifest
  have hconfig : sampleEnv.config sampleConfig = some ⟨[], [], [], none, none⟩ := by decide
  exact ⟨hmem, (length_sample hmem).trans (by decide),
    ⟨reference.text, digestOf sampleEnv bytes, none, mediaTypeOciManifest, sampleConfigDigest, _, resolved⟩,
    rfl, _, _, hread, hlayers, sampleConfig_blob layers, hconfig⟩

theorem layerDescriptor_sampleLayer : layerDescriptor sampleLayer = .ok ⟨emptyDigest, mediaTypeOciLayerGzip, 0⟩ := by
  decide

theorem oneLayer_resolvable (reference : OciReference) : Resolvable sampleEnv reference sampleWorld oneLayer := by
  obtain ⟨-, -, hprobe, -, -, hmanifest, -⟩ := samples_evaluated
  refine sampleManifest_resolvable [sampleLayer] [⟨emptyDigest, mediaTypeOciLayerGzip, 0⟩] ?_
    (hprobe oneLayer (by simp)) hmanifest ?_
  · exact mem_sampleWorld (List.mem_cons_of_mem _ (List.mem_cons_self ..))
  · unfold manifestLayers
    rw [if_neg (by decide), if_neg (by decide), List.mapM_cons, layerDescriptor_sampleLayer]
    rfl

theorem twoLayers_resolvable (reference : OciReference) : Resolvable sampleEnv reference sampleWorld twoLayers := by
  obtain ⟨-, -, hprobe, -, -, -, hmanifest, -⟩ := samples_evaluated
  refine sampleManifest_resolvable [sampleLayer, sampleLayer]
    [⟨emptyDigest, mediaTypeOciLayerGzip, 0⟩, ⟨emptyDigest, mediaTypeOciLayerGzip, 0⟩] ?_
    (hprobe twoLayers (by simp)) hmanifest ?_
  · exact mem_sampleWorld (List.mem_cons_of_mem _ (List.mem_cons_of_mem _ (List.mem_cons_self ..)))
  · unfold manifestLayers
    rw [if_neg (by decide), if_neg (by decide), List.mapM_cons, List.mapM_cons, layerDescriptor_sampleLayer]
    rfl

/-- The sample indexes select their only entry. -/
theorem sampleIndex_selects {reference : OciReference} {top : Bytes} {digest : String}
    (hprobe : sampleEnv.probe top = some ⟨some mediaTypeOciIndex, some [sampleEntry digest], none⟩) :
    Selects sampleEnv sampleClient reference top (sampleEntry digest) := by
  refine ⟨[sampleEntry digest], readsAs_index hprobe rfl (by decide), ?_⟩
  have hmatch : matchesPlatform .x86_64 (sampleEntry digest) = true := rfl
  unfold selectPlatform
  rw [show sampleClient.architecture = .x86_64 from rfl, List.find?_cons, hmatch]

/-- A document that is accepted under its digest in `samples`. -/
theorem accepted_sample {b : Bytes} {hex digest : String} (h : (b, hex) ∈ samples)
    (hdigest : eqIgnoreAsciiCase (digestHex digest) hex = true) : Accepted sampleEnv sampleWorld digest b :=
  ⟨mem_sampleWorld h, (length_sample (mem_sampleWorld h)).trans (by decide), fun _ => hash_sample h hdigest⟩

theorem pinnedIndex_accepted : Accepted sampleEnv sampleWorld pinnedIndexDigest.val pinnedIndex :=
  @accepted_sample _ "65bd7728df24effd3d2bd18df3b8593ad79fb397cc90b099235ec9991a1398d2" _ (by simp [samples]) (by decide)

theorem sha512Index_accepted : Accepted sampleEnv sampleWorld sha512IndexDigest.val sha512Index :=
  @accepted_sample _ "52548c21e5c1fb41086d2c5a730f05b44cadd8c89eba8c3f9304459903d6515b" _ (by simp [samples]) (by decide)

end Firestone.Oci.Registry
