import Firestone.Image.ChecksumManifest
import Firestone.Lib.Members
import Mathlib.Data.String.Basic

/-!
# The image catalog

A catalog lists the releases of distributions, each with the source of its image for every architecture. The catalog built
into the program and the catalogs of the user are read one after the other; a later release replaces the one of the same
name. A release is referred to as `distro:version`, by an alias in place of the version, or by the distribution alone.

* `Catalog.load` — the documents of a catalog, checked and merged.
* `Catalog.find`, `Catalog.resolve` — the release that a reference is for.
* `Catalog.Valid` — what holds of a catalog that was loaded (`load_valid`).
* `find_canonical` — the canonical reference of a release is for that release.

The parser of the `url` crate is a parameter. A document is what the TOML parser makes of a file.
-/

namespace Firestone.Image.Catalogs

open Firestone.Lib Firestone.Image.Generations

/-! ## URLs -/

/-- A URL that was parsed: the form in which it is printed, and its parts. -/
structure Url where
  text : String
  scheme : String
  hasHost : Bool
  username : String
  password : Option String
  authority : String
  fragment : Option String
  deriving DecidableEq, Repr

/-- A parser returns the URL and whether it reported a violation of the syntax. -/
abbrev UrlParser := String → Option (Url × Bool)

/-- What the documentation of the parser says of an HTTPS URL without violations: it is printed without white space, its
printed form is parsed as the same URL again, and it was written with `https://` in front. -/
structure UrlParser.Lawful (parser : UrlParser) : Prop where
  printed : ∀ value url, parser value = some (url, false) → url.scheme = "https" → parser url.text = some (url, false)
  blank : ∀ value url, parser value = some (url, false) → url.scheme = "https" →
    ∀ c ∈ url.text.toList, isWhitespace c = false
  slashes : ∀ value url, parser value = some (url, false) → url.scheme = "https" →
    "https://".toList <+: value.toList.map asciiLower

def parseHttpsUrl (parser : UrlParser) (value : String) : Option Url :=
  if value.toList.any isWhitespace then none
  else match parser value with
    | none => none
    | some (parsed, syntaxViolation) =>
      if syntaxViolation || parsed.scheme ≠ "https" || !parsed.hasHost || parsed.username ≠ "" || parsed.password.isSome ||
          parsed.authority.toList.contains '@' || parsed.fragment.isSome then none
      else some parsed

section Https

variable {parser : UrlParser} {value : String} {url : Url}

theorem parseHttpsUrl_ok (h : parseHttpsUrl parser value = some url) :
    parser value = some (url, false) ∧ url.scheme = "https" ∧ ∀ text : String, text.toList.any isWhitespace = false →
      parser text = some (url, false) → parseHttpsUrl parser text = some url := by
  unfold parseHttpsUrl at h
  split at h
  · cases h
  · split at h
    · cases h
    · rename_i parsed syntaxViolation hparse
      split at h
      · cases h
      · rename_i hchecks
        cases h
        have hstrict : syntaxViolation = false := by
          rw [Bool.eq_false_iff]
          rintro rfl
          exact hchecks (by simp)
        have hscheme : url.scheme = "https" := by
          by_contra hne
          exact hchecks (by simp [hne])
        subst hstrict
        refine ⟨hparse, hscheme, fun text hblank htext => ?_⟩
        rw [parseHttpsUrl, hblank, htext]
        exact if_neg hchecks

/-- The printed form of a URL is read as the URL. -/
theorem parseHttpsUrl_text (hp : parser.Lawful) (h : parseHttpsUrl parser value = some url) :
    parseHttpsUrl parser url.text = some url := by
  obtain ⟨hparse, hscheme, hagain⟩ := parseHttpsUrl_ok h
  refine hagain url.text ?_ (hp.printed value url hparse hscheme)
  rw [List.any_eq_false]
  intro c hc
  rw [hp.blank value url hparse hscheme c hc]
  exact Bool.false_ne_true

/-- What is not written like a URL is none. -/
theorem parseHttpsUrl_none (hp : parser.Lawful) (h : ¬ "https://".toList <+: value.toList.map asciiLower) :
    parseHttpsUrl parser value = none := by
  cases hurl : parseHttpsUrl parser value with
  | none => rfl
  | some url =>
    obtain ⟨hparse, hscheme, _⟩ := parseHttpsUrl_ok hurl
    exact absurd (hp.slashes value url hparse hscheme) h

end Https

def isHttpsUrl (parser : UrlParser) (value : String) : Bool := (parseHttpsUrl parser value).isSome

/-! ## Releases -/

structure CatalogArchSource where
  url : String
  checksum : CatalogChecksum
  checksumAlgorithm : ChecksumAlgorithm
  firmware : Option CatalogFirmware
  deriving DecidableEq, Repr

/-- One release of a distribution, with its sources by architecture. -/
structure CatalogEntry where
  distro : String
  version : String
  aliases : List String
  default : Bool
  firmware : CatalogFirmware
  format : ImageFormat
  sshdPath : Option String
  arch : List (String × CatalogArchSource)
  deriving DecidableEq, Repr

def CatalogEntry.canonicalReference (entry : CatalogEntry) : String := entry.distro ++ ":" ++ entry.version

/-- The release is meant by a distribution and a version or an alias. -/
def CatalogEntry.isFor (distro selector : String) (entry : CatalogEntry) : Bool :=
  entry.distro = distro && (entry.version = selector || entry.aliases.any (· = selector))

/-- A release for the architecture of the host. -/
structure ResolvedCatalogEntry where
  canonicalReference : String
  source : CatalogArchSource
  checksumAlgorithm : ChecksumAlgorithm
  firmware : CatalogFirmware
  format : ImageFormat
  sshdPath : Option String
  architecture : String
  deriving DecidableEq, Repr

/-- The releases by their canonical references, in lexical order. -/
structure Catalog where
  entries : List (String × CatalogEntry)
  deriving DecidableEq, Repr

/-! ## Documents -/

structure RawArchSource where
  url : String
  checksumUrl : Option String
  sha256 : Option String
  firmware : Option CatalogFirmware
  checksumAlg : ChecksumAlgorithm
  deriving DecidableEq, Repr

structure RawCatalogEntry where
  distro : String
  version : String
  aliases : List String
  default : Bool
  firmware : CatalogFirmware
  format : ImageFormat
  sshdPath : Option String
  arch : List (String × RawArchSource)
  deriving DecidableEq, Repr

/-- A document and what messages call it. -/
structure CatalogDocument where
  label : String
  image : List RawCatalogEntry
  userEditable : Bool
  deriving DecidableEq, Repr

def catalogFileHint : String := "fix the catalog file and retry"

def invalidCatalog (document : CatalogDocument) (detail : String) : FirestoneError :=
  let error := FirestoneError.new .invalidSpec ("invalid " ++ document.label ++ ": " ++ detail)
  if document.userEditable then error.withHint catalogFileHint else error

/-- ASCII letters and digits, and some punctuation after the first character. -/
def isReferenceComponent (value : String) : Bool :=
  match value.toList with
  | [] => false
  | c :: rest => c.isAlphanum && rest.all fun c => c.isAlphanum || c = '.' || c = '_' || c = '+' || c = '-'

def validateReferenceComponent (document : CatalogDocument) (field value : String) : Res Unit :=
  if isReferenceComponent value then .ok ()
  else .error (invalidCatalog document (field ++ " '" ++ value ++ "' is not a valid catalog reference component"))

def validateArchitectureName (document : CatalogDocument) (canonicalReference architecture : String) : Res Unit :=
  if architecture = "x86_64" ∨ architecture = "aarch64" then .ok ()
  else .error (invalidCatalog document ("image '" ++ canonicalReference ++ "' key 'image.arch." ++ architecture ++
    "' is unsupported; expected x86_64 or aarch64"))

section Convert

variable (parser : UrlParser) (document : CatalogDocument)

def convertArchSource (canonicalReference architecture : String) (raw : RawArchSource) : Res CatalogArchSource := do
  let fieldContext := "image '" ++ canonicalReference ++ "' architecture '" ++ architecture ++ "'"
  let invalid {α : Type} (detail : String) : Res α := .error (invalidCatalog document (fieldContext ++ detail))
  if !isHttpsUrl parser raw.url then
    invalid (" has invalid image URL '" ++ raw.url ++
      "'; expected HTTPS with a host and without credentials or a fragment")
  else do
    let checksum ← match raw.checksumUrl, raw.sha256 with
      | some checksumUrl, none =>
        if isHttpsUrl parser checksumUrl then .ok (.manifestUrl checksumUrl)
        else invalid (" has invalid checksum URL '" ++ checksumUrl ++
          "'; expected HTTPS with a host and without credentials or a fragment")
      | none, some sha256 =>
        if raw.checksumAlg ≠ .sha256 then invalid " uses direct sha256 with a non-sha256 algorithm"
        else if Manifests.isHex sha256.toList 64 then .ok (.sha256 (toAsciiLowercase sha256))
        else invalid " has an invalid sha256 digest"
      | some _, some _ => invalid " sets both checksum_url and sha256"
      | none, none => invalid " requires checksum_url or sha256"
    return { url := raw.url, checksum, checksumAlgorithm := raw.checksumAlg, firmware := raw.firmware }

/-- The set of the aliases; each is there once. -/
def convertAliases (canonicalReference : String) (seen : List (String × Unit)) : List String → Res (List (String × Unit))
  | [] => .ok seen
  | name :: rest => do
    validateReferenceComponent document "alias" name
    if (seen.lookup name).isSome then
      .error (invalidCatalog document ("image '" ++ canonicalReference ++ "' repeats alias '" ++ name ++ "'"))
    else convertAliases canonicalReference (insertMember name () seen) rest

def convertEntry (raw : RawCatalogEntry) : Res CatalogEntry := do
  validateReferenceComponent document "distro" raw.distro
  validateReferenceComponent document "version" raw.version
  let canonicalReference := raw.distro ++ ":" ++ raw.version
  let aliases ← convertAliases document canonicalReference [] raw.aliases
  if raw.arch = [] then
    .error (invalidCatalog document ("image '" ++ canonicalReference ++ "' has no architecture sources"))
  else do
    let arch ← raw.arch.mapM fun x => do
      validateArchitectureName document canonicalReference x.1
      return (x.1, ← convertArchSource parser document canonicalReference x.1 x.2)
    return { distro := raw.distro, version := raw.version, aliases := aliases.map Prod.fst, default := raw.default
             firmware := raw.firmware, format := raw.format, sshdPath := raw.sshdPath, arch }

@[grind =] def parseEntries (seen : List String) : List RawCatalogEntry → Res (List CatalogEntry)
  | [] => .ok []
  | raw :: rest => do
    let entry ← convertEntry parser document raw
    if entry.canonicalReference ∈ seen then
      .error (invalidCatalog document ("duplicate canonical reference '" ++ entry.canonicalReference ++ "'"))
    else return entry :: (← parseEntries (entry.canonicalReference :: seen) rest)

/-- `parse_document`: a document refers to no release twice. -/
def parseDocument : Res (List CatalogEntry) := parseEntries parser document [] document.image

end Convert

/-! ## The checks of a catalog -/

/-- The distributions, in lexical order. -/
def distros (entries : List (String × CatalogEntry)) : List String :=
  (entries.foldl (fun names x => insertMember x.2.distro () names) []).map Prod.fst

def validateDefaults (entries : List (String × CatalogEntry)) : Res Unit :=
  (distros entries).forM fun distro =>
    let releases := (entries.map Prod.snd).filter (·.distro = distro)
    let defaults := releases.filter (·.default)
    if defaults.length ≠ 1 then
      .error <| (FirestoneError.new .invalidSpec ("catalog distro '" ++ distro ++
        "' must have exactly one default release; found " ++ toString defaults.length ++ " across " ++
        ", ".intercalate (releases.map CatalogEntry.canonicalReference))).withHint catalogFileHint
    else .ok ()

/-- The version and the aliases, in lexical order and each once. -/
def CatalogEntry.selectors (entry : CatalogEntry) : List String :=
  ((entry.aliases ++ [entry.version]).foldl (fun names x => insertMember x () names) []).map Prod.fst

/-- The names of a release, with its canonical reference. -/
def CatalogEntry.names (entry : CatalogEntry) : List ((String × String) × String) :=
  entry.selectors.map fun selector => ((entry.distro, selector), entry.canonicalReference)

/-- No name is that of two releases. -/
def checkNames (names : List ((String × String) × String)) : List ((String × String) × String) → Res Unit
  | [] => .ok ()
  | (name, canonicalReference) :: rest =>
    match names.lookup name with
    | some previous =>
      if previous ≠ canonicalReference then
        .error <| (FirestoneError.new .invalidSpec ("catalog name '" ++ name.1 ++ ":" ++ name.2 ++
          "' is ambiguous between '" ++ previous ++ "' and '" ++ canonicalReference ++ "'")).withHint catalogFileHint
      else checkNames ((name, canonicalReference) :: names) rest
    | none => checkNames ((name, canonicalReference) :: names) rest

def validateReferenceNames (entries : List (String × CatalogEntry)) : Res Unit :=
  checkNames [] ((entries.map Prod.snd).flatMap CatalogEntry.names)

/-- Puts releases under their canonical references, in place of those that are there. -/
def insertEntries (entries : List (String × CatalogEntry)) (added : List CatalogEntry) : List (String × CatalogEntry) :=
  added.foldl (fun entries entry => insertMember entry.canonicalReference entry entries) entries

namespace Catalog

def validate (entries : List (String × CatalogEntry)) : Res Catalog := do
  validateDefaults entries
  validateReferenceNames entries
  return ⟨entries⟩

/-- The documents in their order: the one built in, and those of the user that there are. -/
def load (parser : UrlParser) (documents : List CatalogDocument) : Res Catalog := do
  let entries ← documents.foldlM (fun entries document => do
    return insertEntries entries (← parseDocument parser document)) []
  validate entries

/-! ## Lookups -/

variable (catalog : Catalog)

def values : List CatalogEntry := catalog.entries.map Prod.snd

def find (reference : String) : Option CatalogEntry :=
  match splitOnce ':' reference with
  | some (distro, selector) => catalog.values.find? (CatalogEntry.isFor distro selector)
  | none => catalog.values.find? fun entry => entry.distro = reference && entry.default

end Catalog

/-- One row of the table, from the value to its left. -/
def levenshteinRow (left : Char) : Nat → List Char → List Nat → List Nat
  | insertion, c :: right, diagonal :: above :: rest =>
    let value := min (min (diagonal + if left ≠ c then 1 else 0) (insertion + 1)) (above + 1)
    value :: levenshteinRow left value right (above :: rest)
  | _, _, _ => []

def levenshteinFrom (row : Nat) (right : List Char) (previous : List Nat) : List Char → List Nat
  | [] => previous
  | c :: left => levenshteinFrom (row + 1) right ((row + 1) :: levenshteinRow c (row + 1) right previous) left

/-- The edit distance. -/
def levenshtein (left right : String) : Nat :=
  ((levenshteinFrom 0 right.toList (List.range (right.toList.length + 1)) left.toList).getLast?).getD 0

namespace Catalog

variable (catalog : Catalog)

/-- The names of the catalog that are closest to a reference. -/
def closestNames (reference : String) (limit : Nat) : List String :=
  let names := (catalog.values.flatMap fun entry =>
    entry.canonicalReference :: ((if entry.default then [entry.distro] else []) ++
      entry.aliases.map fun name => entry.distro ++ ":" ++ name)).foldl (fun names x => insertMember x () names) []
  let ranked := (names.map fun x => (levenshtein reference x.1, x.1)).mergeSort fun x y =>
    decide (x.1 < y.1 ∨ x.1 = y.1 ∧ x.2 ≤ y.2)
  (ranked.take limit).map Prod.snd

def unknownImage (reference : String) : FirestoneError :=
  let closest := ", ".intercalate (catalog.closestNames reference 3)
  let message := if closest = "" then "unknown image '" ++ reference ++ "'"
    else "unknown image '" ++ reference ++ "'; closest catalog images: " ++ closest
  (FirestoneError.new .notFound message).withHint
    "run `firestone catalog` to list catalog images, or pull a container image by writing `docker://nginx`"

def resolve (reference hostArchitecture : String) : Res ResolvedCatalogEntry :=
  match catalog.find reference with
  | none => .error (catalog.unknownImage reference)
  | some entry =>
    match entry.arch.lookup hostArchitecture with
    | none => .error <| (FirestoneError.new .notFound ("image '" ++ entry.canonicalReference ++
        "' has no source for architecture '" ++ hostArchitecture ++ "'; available architectures: " ++
        ", ".intercalate (entry.arch.map Prod.fst))).withHint "use a host with one of the available architectures"
    | some source => .ok
        { canonicalReference := entry.canonicalReference, source, checksumAlgorithm := source.checksumAlgorithm
          firmware := source.firmware.getD entry.firmware, format := entry.format, sshdPath := entry.sshdPath
          architecture := hostArchitecture }

end Catalog

/-! ## What holds of a loaded catalog -/

theorem isReferenceComponent_of_ok {document : CatalogDocument} {field value : String}
    (h : validateReferenceComponent document field value = .ok ()) : isReferenceComponent value = true := by
  unfold validateReferenceComponent at h
  split at h
  · assumption
  · cases h

/-- A component has none of the characters that separate, and is not empty. -/
theorem notMem_of_isReferenceComponent {value : String} (h : isReferenceComponent value = true) :
    ':' ∉ value.toList ∧ '/' ∉ value.toList ∧ value.toList ≠ [] := by
  unfold isReferenceComponent at h
  cases hvalue : value.toList with
  | nil =>
    rw [hvalue] at h
    cases h
  | cons c rest =>
    rw [hvalue] at h
    simp only [Bool.and_eq_true, List.all_eq_true, Bool.or_eq_true, decide_eq_true_eq] at h
    have hbad : ∀ x, x.isAlphanum = false → x ≠ '.' → x ≠ '_' → x ≠ '+' → x ≠ '-' → x ∉ c :: rest := by
      intro x halnum hdot hunder hplus hdash hmem
      rcases List.mem_cons.mp hmem with rfl | hmem
      · rw [halnum] at h
        cases h.1
      · rcases h.2 x hmem with (((hx | hx) | hx) | hx) | hx
        · rw [halnum] at hx
          cases hx
        · exact hdot hx
        · exact hunder hx
        · exact hplus hx
        · exact hdash hx
    exact ⟨hbad ':' (by decide) (by decide) (by decide) (by decide) (by decide),
      hbad '/' (by decide) (by decide) (by decide) (by decide) (by decide), List.cons_ne_nil _ _⟩

/-- The parts of the canonical reference of a release are components. -/
structure CatalogEntry.WellNamed (entry : CatalogEntry) : Prop where
  distro : isReferenceComponent entry.distro = true
  version : isReferenceComponent entry.version = true

theorem splitOnce_canonicalReference {entry : CatalogEntry} (h : entry.WellNamed) :
    splitOnce ':' entry.canonicalReference = some (entry.distro, entry.version) := by
  have htext : entry.canonicalReference = String.ofList (entry.distro.toList ++ ':' :: entry.version.toList) := by
    refine String.toList_inj.mp ?_
    simp [CatalogEntry.canonicalReference]
  rw [htext, splitOnce_append (notMem_of_isReferenceComponent h.distro).1, String.ofList_toList, String.ofList_toList]

namespace Catalog

/-- What the checks establish. -/
structure Valid (catalog : Catalog) : Prop where
  sorted : MembersSorted catalog.entries
  keyed : ∀ x ∈ catalog.entries, x.1 = x.2.canonicalReference
  wellNamed : ∀ entry ∈ catalog.values, entry.WellNamed
  unambiguous : ∀ entry ∈ catalog.values, ∀ other ∈ catalog.values, ∀ selector ∈ entry.selectors,
    entry.distro = other.distro → selector ∈ other.selectors → entry.canonicalReference = other.canonicalReference

end Catalog

/-- A set of names that is filled by a loop has the names of the list. -/
theorem mem_foldl_insertMember {α : Type} {name : α → String} {x : String} {l : List α} {acc : List (String × Unit)} :
    x ∈ (l.foldl (fun acc a => insertMember (name a) () acc) acc).map Prod.fst ↔ x ∈ l.map name ∨ x ∈ acc.map Prod.fst := by
  induction l generalizing acc with
  | nil => simp
  | cons a l ih =>
    rw [List.foldl_cons, ih, mem_keys_insertMember, List.map_cons, List.mem_cons]
    tauto

theorem mem_selectors {entry : CatalogEntry} {selector : String} :
    selector ∈ entry.selectors ↔ entry.version = selector ∨ selector ∈ entry.aliases := by
  refine (@mem_foldl_insertMember _ id _ _ _).trans ?_
  simp [eq_comm, or_comm]

theorem checkNames_ok : ∀ {pairs names : List ((String × String) × String)}, checkNames names pairs = .ok () →
    (∀ x ∈ pairs, ∀ previous, names.lookup x.1 = some previous → previous = x.2) ∧
      ∀ x ∈ pairs, ∀ y ∈ pairs, x.1 = y.1 → x.2 = y.2
  | [], _, _ => by simp
  | (name, canonicalReference) :: pairs, names, h => by
    have hhead : (∀ previous, names.lookup name = some previous → previous = canonicalReference) ∧
        checkNames ((name, canonicalReference) :: names) pairs = .ok () := by
      rw [checkNames] at h
      cases hprevious : names.lookup name with
      | none =>
        rw [hprevious] at h
        exact ⟨fun _ hp => (by cases hp), h⟩
      | some previous =>
        rw [hprevious] at h
        dsimp only at h
        split at h
        · cases h
        · rename_i heq
          refine ⟨fun p hp => ?_, h⟩
          cases hp
          exact not_not.mp heq
    obtain ⟨hbefore, hafter⟩ := checkNames_ok hhead.2
    have hsame : ∀ y ∈ pairs, y.1 = name → canonicalReference = y.2 := by
      intro y hy hname
      refine hbefore y hy canonicalReference ?_
      rw [hname, List.lookup_cons_self]
    refine ⟨?_, ?_⟩
    · rintro x (_ | ⟨_, hx⟩) previous hprevious
      · exact hhead.1 previous hprevious
      · by_cases hname : x.1 = name
        · rw [hname] at hprevious
          rw [hhead.1 previous hprevious]
          exact hsame x hx hname
        · refine hbefore x hx previous ?_
          rw [List.lookup_cons, beq_eq_false_iff_ne.mpr hname]
          exact hprevious
    · rintro x (_ | ⟨_, hx⟩) y (_ | ⟨_, hy⟩) hxy
      · rfl
      · exact hsame y hy hxy.symm
      · exact (hsame x hx hxy).symm
      · exact hafter x hx y hy hxy

/-- What is kept while documents are merged. -/
structure Merged (entries : List (String × CatalogEntry)) : Prop where
  sorted : MembersSorted entries
  keyed : ∀ x ∈ entries, x.1 = x.2.canonicalReference
  wellNamed : ∀ x ∈ entries, x.2.WellNamed

theorem Merged.insert {entries : List (String × CatalogEntry)} (h : Merged entries) {entry : CatalogEntry}
    (hentry : entry.WellNamed) : Merged (insertMember entry.canonicalReference entry entries) where
  sorted := h.sorted.insertMember
  keyed := by
    intro x hx
    rcases mem_insertMember hx with rfl | hx
    · rfl
    · exact h.keyed x hx
  wellNamed := by
    intro x hx
    rcases mem_insertMember hx with rfl | hx
    · exact hentry
    · exact h.wellNamed x hx

theorem Merged.insertEntries {added : List CatalogEntry} (hadded : ∀ entry ∈ added, entry.WellNamed) :
    ∀ {entries : List (String × CatalogEntry)}, Merged entries → Merged (insertEntries entries added) := by
  induction added with
  | nil => exact fun h => h
  | cons entry added ih =>
    intro entries h
    exact ih (fun e he => hadded e (List.mem_cons_of_mem _ he)) (h.insert (hadded entry List.mem_cons_self))

section Load

variable {parser : UrlParser} {document : CatalogDocument}

theorem convertEntry_wellNamed {raw : RawCatalogEntry} {entry : CatalogEntry}
    (h : convertEntry parser document raw = .ok entry) : entry.WellNamed := by
  rw [convertEntry] at h
  obtain ⟨_, hdistro, h⟩ := Res.bind_ok h
  obtain ⟨_, hversion, h⟩ := Res.bind_ok h
  obtain ⟨_, _, h⟩ := Res.bind_ok h
  split at h
  · cases h
  · obtain ⟨_, _, h⟩ := Res.bind_ok h
    cases h
    exact ⟨isReferenceComponent_of_ok hdistro, isReferenceComponent_of_ok hversion⟩

theorem parseEntries_wellNamed : ∀ {raws : List RawCatalogEntry} {seen : List String} {entries : List CatalogEntry},
    parseEntries parser document seen raws = .ok entries → ∀ entry ∈ entries, entry.WellNamed
  | [], _, _, h => by
    cases h
    simp
  | raw :: raws, seen, entries, h => by
    rw [parseEntries] at h
    obtain ⟨entry, hentry, h⟩ := Res.bind_ok h
    split at h
    · cases h
    · obtain ⟨rest, hrest, h⟩ := Res.bind_ok h
      cases h
      rintro e (_ | ⟨_, he⟩)
      · exact convertEntry_wellNamed hentry
      · exact parseEntries_wellNamed hrest e he

theorem merged_foldlM {documents : List CatalogDocument} : ∀ {entries merged : List (String × CatalogEntry)},
    documents.foldlM (fun entries document => do
      return insertEntries entries (← parseDocument parser document)) entries = (.ok merged : Res _) →
    Merged entries → Merged merged := by
  induction documents with
  | nil =>
    intro entries merged h hentries
    cases h
    exact hentries
  | cons document documents ih =>
    intro entries merged h hentries
    rw [List.foldlM_cons] at h
    obtain ⟨next, hnext, h⟩ := Res.bind_ok h
    obtain ⟨added, hadded, hnext⟩ := Res.bind_ok hnext
    cases hnext
    exact ih h (hentries.insertEntries (parseEntries_wellNamed hadded))

/-- **A catalog that was loaded is valid.** -/
theorem load_valid {documents : List CatalogDocument} {catalog : Catalog}
    (h : Catalog.load parser documents = .ok catalog) : catalog.Valid := by
  rw [Catalog.load] at h
  obtain ⟨entries, hentries, h⟩ := Res.bind_ok h
  have hmerged : Merged entries :=
    merged_foldlM hentries ⟨List.Pairwise.nil, by simp, by simp⟩
  rw [Catalog.validate] at h
  obtain ⟨_, _, h⟩ := Res.bind_ok h
  obtain ⟨_, hnames, h⟩ := Res.bind_ok h
  cases h
  have hnames := (checkNames_ok hnames).2
  refine ⟨hmerged.sorted, hmerged.keyed, ?_, ?_⟩
  · intro entry hentry
    obtain ⟨x, hx, rfl⟩ := List.mem_map.mp hentry
    exact hmerged.wellNamed x hx
  · intro entry hentry other hother selector hselector hdistro hselector'
    refine hnames ((entry.distro, selector), entry.canonicalReference) ?_
      ((other.distro, selector), other.canonicalReference) ?_ (by rw [hdistro])
    · exact List.mem_flatMap.mpr ⟨entry, hentry, List.mem_map_of_mem hselector⟩
    · exact List.mem_flatMap.mpr ⟨other, hother, List.mem_map_of_mem hselector'⟩

end Load

/-! ## Canonical references -/

namespace Catalog

variable {catalog : Catalog}

/-- Releases with one canonical reference are one. -/
theorem Valid.eq (hv : catalog.Valid) {entry other : CatalogEntry} (he : entry ∈ catalog.values) (ho : other ∈ catalog.values)
    (h : entry.canonicalReference = other.canonicalReference) : entry = other := by
  obtain ⟨x, hx, rfl⟩ := List.mem_map.mp he
  obtain ⟨y, hy, rfl⟩ := List.mem_map.mp ho
  have hkey : x.1 = y.1 := by rw [hv.keyed x hx, hv.keyed y hy, h]
  have hx' := lookup_of_mem hv.sorted (k := x.1) (v := x.2) hx
  have hy' := lookup_of_mem hv.sorted (k := y.1) (v := y.2) hy
  rw [hkey, hy'] at hx'
  exact (Option.some.inj hx').symm

theorem mem_of_find {reference : String} {entry : CatalogEntry} (h : catalog.find reference = some entry) :
    entry ∈ catalog.values := by
  unfold find at h
  split at h
  · exact List.mem_of_find?_eq_some h
  · exact List.mem_of_find?_eq_some h

/-- **The canonical reference of a release is for that release.** -/
theorem find_canonical (hv : catalog.Valid) {entry : CatalogEntry} (h : entry ∈ catalog.values) :
    catalog.find entry.canonicalReference = some entry := by
  have hself : CatalogEntry.isFor entry.distro entry.version entry = true := by simp [CatalogEntry.isFor]
  have hsome : (catalog.values.find? (CatalogEntry.isFor entry.distro entry.version)).isSome = true :=
    List.find?_isSome.mpr ⟨entry, h, hself⟩
  obtain ⟨found, hfound⟩ := Option.isSome_iff_exists.mp hsome
  have hmem : found ∈ catalog.values := List.mem_of_find?_eq_some hfound
  have hname : CatalogEntry.isFor entry.distro entry.version found = true := List.find?_some hfound
  simp only [CatalogEntry.isFor, Bool.and_eq_true, Bool.or_eq_true, decide_eq_true_eq, List.any_eq_true] at hname
  -- the version of the entry is a name of what was found
  have hselector : entry.version ∈ found.selectors := by
    refine mem_selectors.mpr ?_
    rcases hname.2 with hversion | ⟨name, hname, rfl⟩
    · exact .inl hversion
    · exact .inr hname
  have hcanonical : found.canonicalReference = entry.canonicalReference :=
    hv.unambiguous found hmem entry h entry.version hselector hname.1 (mem_selectors.mpr (.inl rfl))
  have hsplit := splitOnce_canonicalReference (hv.wellNamed entry h)
  rw [find, hsplit]
  dsimp only
  rw [hfound, hv.eq hmem h hcanonical]

theorem resolve_canonical (hv : catalog.Valid) {reference architecture : String} {resolved : ResolvedCatalogEntry}
    (h : catalog.resolve reference architecture = .ok resolved) :
    catalog.resolve resolved.canonicalReference architecture = .ok resolved := by
  unfold resolve at h
  split at h
  · cases h
  · rename_i entry hfind
    split at h
    · cases h
    · rename_i source hsource
      cases h
      rw [resolve, find_canonical hv (mem_of_find hfind)]
      dsimp only
      rw [hsource]

end Catalog

end Firestone.Image.Catalogs
