import Firestone.Lib.Decimal
import Firestone.Lib.Loops
import Firestone.Oci.Registry
import Mathlib.Data.List.TakeWhile

/-!
# References

A reference is a text with an optional scheme, an optional registry, a repository and an optional tag or digest. `parse`
fills in what is left out; `OciReference.text` writes everything.

* `parse`, `classify`, `normalize` — the syntax of references.
* `Canonical` — what `parse` returns: each part passes its own check and is its own normal form (`parse_canonical`).
* `parse_text` — the text of a canonical reference parses to it, every decision falling on the same side again.
-/

namespace Firestone.Oci.References

open Firestone.Lib Firestone.Oci.Registry

/-! ## Syntax -/

def ociSchemePrefix : String := "oci://"

def dockerSchemePrefix : String := "docker://"

def defaultRegistry : String := "docker.io"

/-- The legacy spelling of the default registry. -/
def defaultRegistryAlias : String := "index.docker.io"

def defaultNamespace : String := "library"

def defaultTag : String := "latest"

def maxTagBytes : Nat := 128

def maxRepositoryBytes : Nat := 255

def maxHostLabelBytes : Nat := 63

def digestHexLength : Nat := 64

/-- Why a reference is taken for an OCI one. -/
inductive OciClassification
  | scheme | registryHost
  deriving DecidableEq, Repr

def OciClassification.isExplicit : OciClassification → Bool
  | .scheme => true
  | .registryHost => false

def invalid (value detail hint : String) : FirestoneError :=
  (FirestoneError.new .invalidSpec s!"invalid OCI image reference '{value}': {detail}").withHint hint

def stripScheme (value : String) : Option String :=
  (stripPrefix ociSchemePrefix value).or (stripPrefix dockerSchemePrefix value)

def looksLikeRegistryHost (component : String) : Bool :=
  component.toList.contains '.' || component.toList.contains ':' || component = "localhost"

def classify (value : String) : Option OciClassification :=
  if (stripScheme value).isSome then some .scheme
  else (splitOnce '/' value).bind fun x => if looksLikeRegistryHost x.1 then some .registryHost else none

def normalizeRegistry (component : String) : String :=
  let lowered := toAsciiLowercase component
  if lowered = defaultRegistryAlias then defaultRegistry else lowered

/-! ## The checks of the parts -/

def isAsciiAlphanumeric (c : Char) : Bool := c.isAlphanum

def checkLabel (label : String) : Except String Unit :=
  if label = "" then .error "host labels must not be empty"
  else if maxHostLabelBytes < label.utf8ByteSize then
    .error s!"host labels must be at most {maxHostLabelBytes} characters"
  else if !label.toList.all fun c => isAsciiAlphanumeric c || c == '-' then
    .error "host labels accept only ASCII letters, digits, and '-'"
  else if label.toList.head? = some '-' ∨ label.toList.getLast? = some '-' then
    .error "host labels must not start or end with '-'"
  else .ok ()

def checkPort (port : String) : Except String Unit :=
  if port = "" ∨ (port.toList.all Char.isDigit) = false then .error "the port must be decimal digits"
  else match parseDecimal (2 ^ 32) (bytes port) with
    | some number =>
      if 1 ≤ number ∧ number ≤ 65535 then .ok () else .error "the port must be between 1 and 65535"
    | none => .error "the port must be between 1 and 65535"

/-- The host and, after the first colon, the port. -/
def hostAndPort (value : String) : String × Option String :=
  match splitOnce ':' value with
  | some (host, port) => (host, some port)
  | none => (value, none)

def checkRegistryHost (value : String) : Except String Unit :=
  if value = "" then .error "the host is empty"
  else if "://".toList <:+: value.toList then .error "a scheme is not allowed"
  else if '/' ∈ value.toList then .error "a path is not allowed"
  else if '@' ∈ value.toList then .error "credentials are not allowed"
  else do
    match (hostAndPort value).2 with
    | some port => checkPort port
    | none => .ok ()
    if (hostAndPort value).1 = "" then .error "the host is empty"
    else (splitText '.' (hostAndPort value).1).forM checkLabel

def validateRegistryHostFor (value registry : String) : Res Unit :=
  match checkRegistryHost registry with
  | .ok () => .ok ()
  | .error detail => .error (invalid value s!"registry host '{registry}' is invalid: {detail}"
      "write a bare 'host' or 'host:port' registry such as 'localhost:5000'")

def isComponentAlphanumeric (c : Char) : Bool := c.isLower || c.isDigit

def isComponentChar (c : Char) : Bool := isComponentAlphanumeric c || c == '.' || c == '_' || c == '-'

/-- A run of one separator. -/
def separatorAllowed (c : Char) (run : Nat) : Bool :=
  if c = '.' then run = 1 else if c = '_' then run ≤ 2 else c = '-'

/-- The loop over a component, with more fuel than it has characters. -/
@[grind =] def scanComponent : Nat → Bool → List Char → Except String Unit
  | 0, _, _ => .ok ()
  | _, _, [] => .ok ()
  | fuel + 1, expectAlphanumeric, c :: rest =>
    if isComponentAlphanumeric c then scanComponent fuel false rest
    else if expectAlphanumeric then .error "components must start and end with a letter or digit"
    else
      let run := ((c :: rest).takeWhile (· = c)).length
      let after := (c :: rest).dropWhile (· = c)
      if !separatorAllowed c run then .error "separator runs must be '.', '_', '__', or '-'"
      else if after = [] then .error "components must start and end with a letter or digit"
      else scanComponent fuel true after

def checkRepositoryComponent (component : String) : Except String Unit :=
  if component = "" then .error "the component is empty"
  else if !component.toList.all isComponentChar then
    .error "only lowercase letters, digits, '.', '_', and '-' are accepted"
  else scanComponent (component.toList.length + 1) true component.toList

def checkComponentFor (value component : String) : Res Unit :=
  match checkRepositoryComponent component with
  | .ok () => .ok ()
  | .error detail => .error (invalid value s!"repository component '{component}' is invalid: {detail}"
      "use lowercase repository components such as 'library/nginx'")

def validateRepository (value repository : String) : Res Unit :=
  if maxRepositoryBytes < repository.utf8ByteSize then
    .error (invalid value s!"the repository exceeds {maxRepositoryBytes} characters" "shorten the repository path")
  else (splitText '/' repository).forM (checkComponentFor value)

def isTagChar (c : Char) : Bool := isAsciiAlphanumeric c || c == '.' || c == '_' || c == '-'

def validateTag (value tag : String) : Res String :=
  match tag.toList with
  | [] => .error (invalid value "the tag is empty" "write a tag such as ':latest' or omit it")
  | first :: rest =>
    if maxTagBytes < tag.utf8ByteSize then
      .error (invalid value s!"the tag exceeds {maxTagBytes} characters" "shorten the tag")
    else if !(isAsciiAlphanumeric first || first == '_') then
      .error (invalid value "the tag must start with a letter, digit, or '_'" "write a tag such as ':24.04'")
    else if !rest.all isTagChar then
      .error (invalid value "the tag accepts only letters, digits, '.', '_', and '-'" "write a tag such as ':24.04'")
    else .ok tag

def isDigestHex (hex : String) : Bool :=
  hex.toList.length = digestHexLength && hex.toList.all fun c => c.isDigit || ('a' ≤ c && c ≤ 'f')

theorem isSha256Digest_hex {hex : String} (h : isDigestHex hex = true) :
    isSha256Digest (digestAlgorithm ++ ":" ++ hex) = true := by
  have hlist : digestAlgorithm ++ ":" ++ hex = String.ofList ("sha256".toList ++ ':' :: hex.toList) := by
    refine String.toList_inj.mp ?_
    simp [digestAlgorithm]
  rw [isSha256Digest, hlist, splitOnce_append (by decide), Option.any_some, String.ofList_toList, String.ofList_toList]
  simp only [digestAlgorithm, decide_true, Bool.true_and]
  exact h

def validateDigest (value digest : String) : Res { d : String // isSha256Digest d = true } :=
  match (stripPrefix digestAlgorithm digest).bind (stripPrefix ":") with
  | none => .error (invalid value s!"the digest must use the '{digestAlgorithm}:' algorithm prefix"
      "pin the image with 'repository@sha256:<64 hex characters>'")
  | some hex =>
    if h : isDigestHex hex = true then .ok ⟨digestAlgorithm ++ ":" ++ hex, isSha256Digest_hex h⟩
    else .error (invalid value s!"the digest must carry {digestHexLength} lowercase hexadecimal characters"
      "pin the image with 'repository@sha256:<64 hex characters>'")

/-! ## Parsing -/

/-- Everything up to the last slash, and the last component. -/
def lastComponent (body : String) : String × String :=
  match rsplitOnceChar '/' body with
  | some (dir, last) => (dir ++ "/", last)
  | none => ("", body)

def splitReference (value body : String) : Res (String × OciTagOrDigest) :=
  match splitOnce '@' body with
  | some (name, digest) => do
    let digest ← validateDigest value digest
    .ok (name, .digest digest)
  | none =>
    let (dir, last) := lastComponent body
    match rsplitOnceChar ':' last with
    | some (component, tag) => do
      let tag ← validateTag value tag
      .ok (dir ++ component, .tag tag)
    | none => .ok (body, .tag defaultTag)

/-- The registry and the repository a name stands for. -/
def splitName (name : String) : String × String :=
  match splitOnce '/' name with
  | some (first, rest) =>
    if looksLikeRegistryHost first then (normalizeRegistry first, rest) else (defaultRegistry, name)
  | none => (defaultRegistry, name)

/-- The repository with the implied namespace of the default registry. -/
def qualify (registry repository : String) : String :=
  if registry = defaultRegistry ∧ '/' ∉ repository.toList then defaultNamespace ++ "/" ++ repository else repository

/-- `OciReference::parse`. -/
def parse (value : String) : Res OciReference :=
  let body := (stripScheme value).getD value
  if body = "" then
    .error (invalid value "the reference is empty" "write a reference such as `docker://nginx:latest`")
  else do
    let (name, reference) ← splitReference value body
    if name = "" then
      .error (invalid value "the repository name is empty" "write a reference such as `docker://nginx:latest`")
    else do
      let (registry, repository) := splitName name
      validateRegistryHostFor value registry
      validateRepository value (qualify registry repository)
      .ok ⟨registry, qualify registry repository, reference⟩

def normalize (value : String) : Res String := do
  let reference ← parse value
  .ok reference.text

/-! ## What the checks say -/

theorem validateRegistryHostFor_iff {value registry : String} :
    validateRegistryHostFor value registry = .ok () ↔ checkRegistryHost registry = .ok () := by
  unfold validateRegistryHostFor
  cases checkRegistryHost registry <;> simp

theorem validateRepository_iff {value repository : String} :
    validateRepository value repository = .ok () ↔ repository.utf8ByteSize ≤ maxRepositoryBytes ∧
      ∀ component ∈ splitText '/' repository, checkRepositoryComponent component = .ok () := by
  have hcomponent : ∀ component, checkComponentFor value component = .ok () ↔ checkRepositoryComponent component = .ok () := by
    intro component
    unfold checkComponentFor
    cases checkRepositoryComponent component <;> simp
  unfold validateRepository
  split
  · exact ⟨fun h => (by cases h), fun h => absurd h.1 (by omega)⟩
  · rw [forM_ok_iff]
    simp only [hcomponent]
    exact ⟨fun h => ⟨by omega, h⟩, fun h => h.2⟩

/-- A first character that is no period or hyphen, and up to 127 more. -/
def isTag (tag : String) : Bool :=
  tag.utf8ByteSize ≤ maxTagBytes &&
    match tag.toList with
    | [] => false
    | first :: rest => (isAsciiAlphanumeric first || first == '_') && rest.all isTagChar

theorem validateTag_ok_iff {value tag out : String} : validateTag value tag = .ok out ↔ isTag tag = true ∧ out = tag := by
  unfold validateTag isTag
  cases htag : tag.toList with
  | nil => simp
  | cons first rest =>
    simp only [Bool.and_eq_true, decide_eq_true_eq]
    by_cases hlen : tag.utf8ByteSize ≤ maxTagBytes
    · rw [if_neg (by omega)]
      cases hfirst : isAsciiAlphanumeric first || first == '_' with
      | false => simp
      | true =>
        cases hrest : rest.all isTagChar with
        | false => simp
        | true => simp [hlen, eq_comm]
    · rw [if_pos (by omega)]
      simp [hlen]

/-- The characters of a registry host that passes the check. -/
theorem not_mem_registry {registry : String} (h : checkRegistryHost registry = .ok ()) :
    '/' ∉ registry.toList ∧ '@' ∉ registry.toList := by
  unfold checkRegistryHost at h
  split_ifs at h with hempty hscheme hslash hat
  all_goals exact ⟨hslash, hat⟩

theorem isComponentChar_of_check {component : String} (h : checkRepositoryComponent component = .ok ()) :
    ∀ c ∈ component.toList, isComponentChar c = true := by
  unfold checkRepositoryComponent at h
  split_ifs at h with hempty hchars
  simpa using hchars

theorem not_mem_repository {value repository : String} (h : validateRepository value repository = .ok ()) :
    '@' ∉ repository.toList := by
  intro hat
  rcases mem_splitText (c := '/') hat with hslash | ⟨component, hmem, hc⟩
  · cases hslash
  · have hchar := isComponentChar_of_check ((validateRepository_iff.mp h).2 component hmem) '@' hc
    exact absurd hchar (by decide)

theorem isTagChar_of_isTag {tag : String} (h : isTag tag = true) : ∀ c ∈ tag.toList, isTagChar c = true := by
  unfold isTag at h
  cases htag : tag.toList with
  | nil => simp
  | cons first rest =>
    simp only [htag, Bool.and_eq_true, List.all_eq_true, Bool.or_eq_true] at h
    intro c hc
    rcases List.mem_cons.mp hc with rfl | hc
    · unfold isTagChar
      rcases h.2.1 with hfirst | hfirst <;> simp [hfirst]
    · exact h.2.2 c hc

theorem validateDigest_self {value : String} (d : { d : String // isSha256Digest d = true }) :
    validateDigest value d.val = .ok d := by
  obtain ⟨digest, hd⟩ := d
  unfold isSha256Digest at hd
  obtain ⟨⟨algorithm, hex⟩, hsplit, hcheck⟩ := (Option.any_eq_true _ _).mp hd
  simp only [Bool.and_eq_true, decide_eq_true_eq] at hcheck
  obtain ⟨⟨halg, hlen⟩, hchars⟩ := hcheck
  have hlist := eq_of_splitOnce hsplit
  have hhex : isDigestHex hex = true := by
    rw [isDigestHex, Bool.and_eq_true, decide_eq_true_eq]
    exact ⟨hlen, hchars⟩
  have hdigest : digest = digestAlgorithm ++ ":" ++ hex := by
    refine String.toList_inj.mp ?_
    rw [hlist, halg]
    simp
  have hstrip : (stripPrefix digestAlgorithm digest).bind (stripPrefix ":") = some hex := by
    have hfirst : stripPrefix digestAlgorithm digest = some (":" ++ hex) := by
      rw [stripPrefix, if_pos (by rw [hlist, halg]; exact List.prefix_append _ _), hlist, halg, List.drop_left]
      congr 1
      refine String.toList_inj.mp ?_
      simp
    rw [hfirst, Option.bind_some, stripPrefix, if_pos (by simp)]
    simp
  simp only [validateDigest, hstrip, dif_pos hhex, ← hdigest]

/-! ## Normal forms -/

theorem asciiLower_idem (c : Char) : asciiLower (asciiLower c) = asciiLower c := by
  unfold asciiLower
  by_cases hc : ('A' ≤ c && c ≤ 'Z') = true
  · rw [if_pos hc]
    have hn : 65 ≤ c.toNat ∧ c.toNat ≤ 90 := by
      simpa [Char.le_def, UInt32.le_iff_toNat_le] using hc
    have hval : (Char.ofNat (c.toNat + 32)).toNat = c.toNat + 32 := by
      have hvalid : (c.toNat + 32).isValidChar := .inl (by omega)
      rw [Char.ofNat, dif_pos hvalid]
      rfl
    refine if_neg ?_
    simp only [Bool.and_eq_true, decide_eq_true_eq, Char.le_def, UInt32.le_iff_toNat_le, not_and, not_le]
    intro _
    change 90 < (Char.ofNat (c.toNat + 32)).toNat
    omega
  · rw [if_neg hc, if_neg hc]

theorem toAsciiLowercase_idem (s : String) : toAsciiLowercase (toAsciiLowercase s) = toAsciiLowercase s := by
  unfold toAsciiLowercase
  rw [String.toList_ofList, List.map_map]
  congr 1
  exact List.map_congr_left fun c _ => asciiLower_idem c

theorem normalizeRegistry_idem (component : String) :
    normalizeRegistry (normalizeRegistry component) = normalizeRegistry component := by
  by_cases halias : toAsciiLowercase component = defaultRegistryAlias
  · have hdefault : normalizeRegistry component = defaultRegistry := if_pos halias
    rw [hdefault]
    decide
  · have hlow : normalizeRegistry component = toAsciiLowercase component := if_neg halias
    rw [hlow, normalizeRegistry, toAsciiLowercase_idem]
    exact if_neg halias

/-- A registry host is taken for one after it is normalized. -/
theorem looksLikeRegistryHost_normalize {component : String} (h : looksLikeRegistryHost component = true) :
    looksLikeRegistryHost (normalizeRegistry component) = true := by
  by_cases halias : toAsciiLowercase component = defaultRegistryAlias
  · have hdefault : normalizeRegistry component = defaultRegistry := if_pos halias
    rw [hdefault]
    decide
  · have hlow : normalizeRegistry component = toAsciiLowercase component := if_neg halias
    have hkeeps : ∀ c, asciiLower c = c → c ∈ component.toList → c ∈ (toAsciiLowercase component).toList := by
      intro c hc hmem
      rw [toAsciiLowercase, String.toList_ofList]
      exact List.mem_map.mpr ⟨c, hmem, hc⟩
    rw [hlow]
    simp only [looksLikeRegistryHost, Bool.or_eq_true, List.contains_iff_mem, decide_eq_true_eq] at h ⊢
    rcases h with (hdot | hcolon) | hlocal
    · exact .inl (.inl (hkeeps '.' (by decide) hdot))
    · exact .inl (.inr (hkeeps ':' (by decide) hcolon))
    · exact .inr (by rw [hlocal]; decide)

theorem qualify_idem (registry repository : String) :
    qualify registry (qualify registry repository) = qualify registry repository := by
  by_cases h : registry = defaultRegistry ∧ '/' ∉ repository.toList
  · have hq : qualify registry repository = defaultNamespace ++ "/" ++ repository := if_pos h
    rw [hq]
    refine if_neg ?_
    simp
  · have hq : qualify registry repository = repository := if_neg h
    rw [hq, hq]

/-! ## Canonical references -/

/-- Each part of the reference passes its check and is its own normal form. -/
structure Canonical (r : OciReference) : Prop where
  host : looksLikeRegistryHost r.registry = true
  normal : normalizeRegistry r.registry = r.registry
  registry : checkRegistryHost r.registry = .ok ()
  qualified : qualify r.registry r.repository = r.repository
  repository : ∀ value, validateRepository value r.repository = .ok ()
  tag : ∀ tag, r.reference = .tag tag → isTag tag = true

theorem splitName_normal (name : String) : looksLikeRegistryHost (splitName name).1 = true ∧
    normalizeRegistry (splitName name).1 = (splitName name).1 := by
  have hdefault : looksLikeRegistryHost defaultRegistry = true ∧ normalizeRegistry defaultRegistry = defaultRegistry := by
    decide
  unfold splitName
  split
  · split
    · rename_i hhost
      exact ⟨looksLikeRegistryHost_normalize hhost, normalizeRegistry_idem _⟩
    · exact hdefault
  · exact hdefault

theorem splitReference_tag {value body name tag : String} (h : splitReference value body = .ok (name, .tag tag)) :
    isTag tag = true := by
  unfold splitReference at h
  split at h
  · obtain ⟨digest, -, hpure⟩ := Res.bind_ok h
    cases hpure
  · simp only at h
    split at h
    · obtain ⟨out, htag, hpure⟩ := Res.bind_ok h
      cases hpure
      obtain ⟨hvalid, rfl⟩ := validateTag_ok_iff.mp htag
      exact hvalid
    · cases h
      decide

theorem parse_canonical {value : String} {r : OciReference} (h : parse value = .ok r) : Canonical r := by
  simp only [parse] at h
  split at h
  · cases h
  obtain ⟨⟨name, reference⟩, hsplit, hrest⟩ := Res.bind_ok h
  simp only at hrest
  split at hrest
  · cases hrest
  obtain ⟨_, hregistry, hrest⟩ := Res.bind_ok hrest
  obtain ⟨_, hrepository, hpure⟩ := Res.bind_ok hrest
  cases hpure
  obtain ⟨hhost, hnormal⟩ := splitName_normal name
  exact {
    host := hhost
    normal := hnormal
    registry := validateRegistryHostFor_iff.mp hregistry
    qualified := qualify_idem _ _
    repository := fun _ => validateRepository_iff.mpr (validateRepository_iff.mp hrepository)
    tag := by
      rintro tag ⟨⟩
      exact splitReference_tag hsplit }

/-! ## The text of a canonical reference -/

/-- The name of the image: registry and repository. -/
def OciReference.name (r : OciReference) : List Char := r.registry.toList ++ '/' :: r.repository.toList

theorem toList_text_tag {r : OciReference} {tag : String} (h : r.reference = .tag tag) :
    r.text = String.ofList (OciReference.name r ++ ':' :: tag.toList) := by
  refine String.toList_inj.mp ?_
  simp [OciReference.text, h, OciReference.name, toString]

theorem toList_text_digest {r : OciReference} {d : { d : String // isSha256Digest d = true }}
    (h : r.reference = .digest d) : r.text = String.ofList (OciReference.name r ++ '@' :: d.val.toList) := by
  refine String.toList_inj.mp ?_
  simp [OciReference.text, h, OciReference.name, toString]

/-- The text after the registry. -/
theorem exists_text (r : OciReference) : ∃ rest, r.text = String.ofList (r.registry.toList ++ '/' :: rest) := by
  cases h : r.reference with
  | tag tag => exact ⟨_, by rw [toList_text_tag h, OciReference.name, List.append_assoc, List.cons_append]⟩
  | digest d => exact ⟨_, by rw [toList_text_digest h, OciReference.name, List.append_assoc, List.cons_append]⟩

section canonical

variable {r : OciReference} (h : Canonical r)

include h

theorem splitOnce_text : ∃ rest, splitOnce '/' r.text = some (r.registry, rest) := by
  obtain ⟨rest, hrest⟩ := exists_text r
  refine ⟨String.ofList rest, ?_⟩
  rw [hrest, splitOnce_append (not_mem_registry h.registry).1, String.ofList_toList]

/-- A scheme ends in a colon, and no registry does. -/
theorem stripPrefix_text (host : List Char) (hslash : '/' ∉ host)
    (hbad : checkRegistryHost (String.ofList host) ≠ .ok ()) {start : String}
    (hstart : start.toList = host ++ ['/', '/']) : stripPrefix start r.text = none := by
  refine if_neg ?_
  rintro ⟨after, hafter⟩
  have htext : r.text = String.ofList (host ++ '/' :: ('/' :: after)) := by
    refine String.toList_inj.mp ?_
    rw [← hafter, hstart, String.toList_ofList]
    simp
  obtain ⟨rest, hrest⟩ := splitOnce_text h
  rw [htext, splitOnce_append hslash] at hrest
  simp only [Option.some.injEq, Prod.mk.injEq] at hrest
  rw [hrest.1] at hbad
  exact hbad h.registry

theorem stripScheme_text : stripScheme r.text = none := by
  have hoci : stripPrefix ociSchemePrefix r.text = none :=
    stripPrefix_text h "oci:".toList (by decide) (by decide) (by decide)
  have hdocker : stripPrefix dockerSchemePrefix r.text = none :=
    stripPrefix_text h "docker:".toList (by decide) (by decide) (by decide)
  rw [stripScheme, hoci, hdocker]
  rfl

theorem classify_text : classify r.text = some .registryHost := by
  obtain ⟨rest, hrest⟩ := splitOnce_text h
  rw [classify, stripScheme_text h, hrest]
  simp [h.host]

theorem at_not_mem_name : '@' ∉ OciReference.name r := by
  have hregistry := (not_mem_registry h.registry).2
  have hrepository := not_mem_repository (h.repository "")
  simp [OciReference.name, hregistry, hrepository]

omit h in
/-- The name ends in a component without a slash. -/
theorem exists_lastComponent (r : OciReference) : ∃ dir last, OciReference.name r = dir ++ '/' :: last ∧ '/' ∉ last := by
  have hmem : '/' ∈ (OciReference.name r).reverse := by simp [OciReference.name]
  have hsplit := congrArg List.reverse (takeWhile_ne_append hmem)
  rw [List.reverse_reverse, List.reverse_append, List.reverse_cons, List.append_assoc, List.singleton_append] at hsplit
  refine ⟨_, _, hsplit, ?_⟩
  rw [List.mem_reverse]
  intro hlast
  simpa using List.mem_takeWhile_imp hlast

theorem splitReference_text (value : String) :
    splitReference value r.text = .ok (String.ofList (OciReference.name r), r.reference) := by
  cases href : r.reference with
  | digest d =>
    rw [splitReference, toList_text_digest href, splitOnce_append (at_not_mem_name h)]
    simp only [String.ofList_toList, validateDigest_self]
    rfl
  | tag tag =>
    have htag := h.tag tag href
    have hchars : ∀ c, isTagChar c = false → c ∉ tag.toList := by
      intro c hc hmem
      rw [isTagChar_of_isTag htag c hmem] at hc
      cases hc
    have hat : '@' ∉ (String.ofList (OciReference.name r ++ ':' :: tag.toList)).toList := by
      simp [at_not_mem_name h, hchars '@' (by decide)]
    obtain ⟨dir, last, hname, hlast⟩ := exists_lastComponent r
    have hcomponent : lastComponent (String.ofList (OciReference.name r ++ ':' :: tag.toList)) =
        (String.ofList dir ++ "/", String.ofList (last ++ ':' :: tag.toList)) := by
      have hslash : '/' ∉ last ++ ':' :: tag.toList := by simp [hlast, hchars '/' (by decide)]
      rw [lastComponent, hname, List.append_assoc, List.cons_append, rsplitOnceChar_append hslash]
    have hback : String.ofList dir ++ "/" ++ String.ofList last = String.ofList (OciReference.name r) := by
      refine String.toList_inj.mp ?_
      simp [hname]
    have hvalid : validateTag value tag = .ok tag := validateTag_ok_iff.mpr ⟨htag, rfl⟩
    rw [splitReference, toList_text_tag href, splitOnce_none hat]
    simp only [hcomponent, rsplitOnceChar_append (hchars ':' (by decide)), String.ofList_toList, hvalid, hback]
    rfl

theorem splitName_name : splitName (String.ofList (OciReference.name r)) = (r.registry, r.repository) := by
  rw [splitName, OciReference.name, splitOnce_append (not_mem_registry h.registry).1]
  simp [h.host, h.normal]

theorem parse_text : parse r.text = .ok r := by
  have hbody : r.text ≠ "" := by
    obtain ⟨rest, hrest⟩ := splitOnce_text h
    intro hempty
    rw [hempty] at hrest
    exact absurd hrest (by simp [splitOnce])
  have hname : String.ofList (OciReference.name r) ≠ "" := by
    intro hempty
    have := congrArg String.toList hempty
    simp [OciReference.name] at this
  rw [parse, stripScheme_text h, Option.getD_none, if_neg hbody, splitReference_text h]
  simp only [bind, Except.bind, if_neg hname, splitName_name h, h.qualified,
    validateRegistryHostFor_iff.mpr h.registry, h.repository]

end canonical

/-- The text is the name and a valid tag. -/
def HasTag (r : OciReference) : Prop :=
  ∃ tag, isTag tag = true ∧ r.text = String.ofList (OciReference.name r ++ ':' :: tag.toList)

/-- The text is the name and a SHA-256 digest. -/
def HasDigest (r : OciReference) : Prop :=
  ∃ digest, isSha256Digest digest = true ∧ r.text = String.ofList (OciReference.name r ++ '@' :: digest.toList)

theorem not_hasTag_and_hasDigest (r : OciReference) : ¬ (HasTag r ∧ HasDigest r) := by
  rintro ⟨⟨tag, -, htag⟩, digest, -, hdigest⟩
  have hlists := congrArg String.toList (htag.symm.trans hdigest)
  rw [String.toList_ofList, String.toList_ofList, List.append_cancel_left_eq] at hlists
  exact absurd (List.cons.inj hlists).1 (by decide)

theorem Canonical.hasTag_or_hasDigest {r : OciReference} (h : Canonical r) : HasTag r ∨ HasDigest r := by
  cases href : r.reference with
  | tag tag => exact .inl ⟨tag, h.tag tag href, toList_text_tag href⟩
  | digest d => exact .inr ⟨d.val, d.property, toList_text_digest href⟩

/-- **One canonical text.** What a text parses to is written as a text that parses to it again, is taken for an OCI
reference by its registry host and has exactly one of a tag and a digest; normalizing is idempotent. -/
theorem parse_roundTrip {value : String} {r : OciReference} (h : parse value = .ok r) :
    parse r.text = .ok r ∧ classify r.text = some .registryHost ∧ Xor (HasTag r) (HasDigest r) ∧
      normalize value = .ok r.text ∧ normalize r.text = .ok r.text := by
  have hc := parse_canonical h
  have hparse := parse_text hc
  refine ⟨hparse, classify_text hc, ?_, by rw [normalize, h]; rfl, by rw [normalize, hparse]; rfl⟩
  rcases hc.hasTag_or_hasDigest with htag | hdigest
  · exact .inl ⟨htag, fun hdigest => not_hasTag_and_hasDigest r ⟨htag, hdigest⟩⟩
  · exact .inr ⟨hdigest, fun htag => not_hasTag_and_hasDigest r ⟨htag, hdigest⟩⟩

/-- The alias of the default registry, without namespace and tag. -/
theorem parse_roundTrip_alias : ∃ r, parse "docker://Index.Docker.io/nginx" = .ok r ∧
    r.text = "docker.io/library/nginx:latest" ∧ parse r.text = .ok r := by
  obtain ⟨r, hr, htext⟩ := Res.exists_ok_any (x := parse "docker://Index.Docker.io/nginx")
    (p := fun r => r.text = "docker.io/library/nginx:latest") (by decide)
  exact ⟨r, hr, of_decide_eq_true htext, (parse_roundTrip hr).1⟩

end Firestone.Oci.References
