import Firestone.Image.Catalogs
import Firestone.Lib.Loops

/-!
# The names of the releases

A release has a canonical reference, one name for each alias, and the name of its distribution when it is the default. The
checks are made on the merged catalog, so a later document may take a default or an alias away from a release, or give it to
another one.

* `CatalogEntry.Named` — the names of a release.
* `find_iff` — a reference is for the release that has it as a name, and for no other.
* `load_lookup` — a canonical reference has the release of the last document that defines it.
* `references_unambiguous` — the two together, for every sequence of documents that is accepted.
-/

namespace Firestone.Image.Catalogs

open Firestone.Lib

/-! ## Names -/

/-- The references by which a release goes. -/
inductive CatalogEntry.Named (entry : CatalogEntry) : String → Prop
  | canonical : entry.Named entry.canonicalReference
  | another {name : String} (h : name ∈ entry.aliases) : entry.Named (entry.distro ++ ":" ++ name)
  | distro (h : entry.default = true) : entry.Named entry.distro

/-- The test that `Catalog.find` makes of a release. -/
def CatalogEntry.answers (reference : String) (entry : CatalogEntry) : Bool :=
  match splitOnce ':' reference with
  | some (distro, selector) => entry.isFor distro selector
  | none => entry.distro = reference && entry.default

theorem find_eq (catalog : Catalog) (reference : String) :
    catalog.find reference = catalog.values.find? (CatalogEntry.answers reference) := by
  unfold Catalog.find CatalogEntry.answers
  cases splitOnce ':' reference <;> rfl

theorem isFor_iff {entry : CatalogEntry} {distro selector : String} :
    entry.isFor distro selector = true ↔ entry.distro = distro ∧ selector ∈ entry.selectors := by
  rw [mem_selectors]
  simp [CatalogEntry.isFor]

theorem splitOnce_selector {entry : CatalogEntry} (h : entry.WellNamed) (selector : String) :
    splitOnce ':' (entry.distro ++ ":" ++ selector) = some (entry.distro, selector) := by
  have htext : entry.distro ++ ":" ++ selector = String.ofList (entry.distro.toList ++ ':' :: selector.toList) := by
    refine String.toList_inj.mp ?_
    simp
  rw [htext, splitOnce_append (notMem_of_isReferenceComponent h.distro).1, String.ofList_toList, String.ofList_toList]

theorem splitOnce_distro {entry : CatalogEntry} (h : entry.WellNamed) : splitOnce ':' entry.distro = none :=
  splitOnce_none (notMem_of_isReferenceComponent h.distro).1

/-- A release answers to its names only. -/
theorem answers_iff {entry : CatalogEntry} (h : entry.WellNamed) {reference : String} :
    entry.answers reference = true ↔ entry.Named reference := by
  constructor
  · intro hanswers
    unfold CatalogEntry.answers at hanswers
    cases hsplit : splitOnce ':' reference with
    | none =>
      simp only [hsplit, Bool.and_eq_true, decide_eq_true_eq] at hanswers
      obtain ⟨rfl, hdefault⟩ := hanswers
      exact .distro hdefault
    | some parts =>
      obtain ⟨distro, selector⟩ := parts
      simp only [hsplit] at hanswers
      obtain ⟨rfl, hselector⟩ := isFor_iff.mp hanswers
      have htext : reference = entry.distro ++ ":" ++ selector := by
        refine String.toList_inj.mp ?_
        rw [eq_of_splitOnce hsplit]
        simp
      rw [htext]
      rcases mem_selectors.mp hselector with rfl | halias
      · exact .canonical
      · exact .another halias
  · intro hnamed
    unfold CatalogEntry.answers
    cases hnamed with
    | canonical =>
      rw [splitOnce_canonicalReference h]
      exact isFor_iff.mpr ⟨rfl, mem_selectors.mpr (.inl rfl)⟩
    | another halias =>
      rw [splitOnce_selector h]
      exact isFor_iff.mpr ⟨rfl, mem_selectors.mpr (.inr halias)⟩
    | distro hdefault =>
      rw [splitOnce_distro h]
      simp [hdefault]

/-! ## Defaults -/

theorem mem_distros {entries : List (String × CatalogEntry)} {entry : CatalogEntry} (h : entry ∈ entries.map Prod.snd) :
    entry.distro ∈ distros entries := by
  obtain ⟨x, hx, rfl⟩ := List.mem_map.mp h
  rw [distros, mem_foldl_insertMember]
  exact .inl (List.mem_map.mpr ⟨x, hx, rfl⟩)

/-- A distribution has one default release. -/
theorem validateDefaults_ok {entries : List (String × CatalogEntry)} (h : validateDefaults entries = .ok ())
    {entry other : CatalogEntry} (he : entry ∈ entries.map Prod.snd) (ho : other ∈ entries.map Prod.snd)
    (hdistro : entry.distro = other.distro) (hdefault : entry.default = true) (hdefault' : other.default = true) :
    entry = other := by
  have hcheck := forM_ok_iff.mp h entry.distro (mem_distros he)
  dsimp only at hcheck
  split at hcheck
  · cases hcheck
  · rename_i hone
    obtain ⟨only, honly⟩ := List.length_eq_one_iff.mp (not_not.mp hone)
    have heq : ∀ e ∈ entries.map Prod.snd, e.distro = entry.distro → e.default = true → e = only := by
      intro e hmem hd hdef
      refine List.mem_singleton.mp (honly ▸ ?_)
      exact List.mem_filter.mpr ⟨List.mem_filter.mpr ⟨hmem, decide_eq_true hd⟩, hdef⟩
    rw [heq entry he rfl hdefault, heq other ho hdistro.symm hdefault']

theorem load_defaults {parser : UrlParser} {documents : List CatalogDocument} {catalog : Catalog}
    (h : Catalog.load parser documents = .ok catalog) : validateDefaults catalog.entries = .ok () := by
  rw [Catalog.load] at h
  obtain ⟨entries, _, h⟩ := Res.bind_ok h
  rw [Catalog.validate] at h
  obtain ⟨_, hdefaults, h⟩ := Res.bind_ok h
  obtain ⟨_, _, h⟩ := Res.bind_ok h
  cases h
  exact hdefaults

/-! ## Lookups by name -/

section Find

variable {parser : UrlParser} {documents : List CatalogDocument} {catalog : Catalog}

/-- No name is that of two releases. -/
theorem named_unique (h : Catalog.load parser documents = .ok catalog) {reference : String} {entry other : CatalogEntry}
    (he : entry ∈ catalog.values) (ho : other ∈ catalog.values) (hentry : entry.Named reference)
    (hother : other.Named reference) : entry = other := by
  have hv := load_valid h
  have hanswers := (answers_iff (hv.wellNamed entry he)).mpr hentry
  have hanswers' := (answers_iff (hv.wellNamed other ho)).mpr hother
  unfold CatalogEntry.answers at hanswers hanswers'
  cases hsplit : splitOnce ':' reference with
  | none =>
    simp only [hsplit, Bool.and_eq_true, decide_eq_true_eq] at hanswers hanswers'
    exact validateDefaults_ok (load_defaults h) he ho (hanswers.1.trans hanswers'.1.symm) hanswers.2 hanswers'.2
  | some parts =>
    simp only [hsplit] at hanswers hanswers'
    obtain ⟨hdistro, hselector⟩ := isFor_iff.mp hanswers
    obtain ⟨hdistro', hselector'⟩ := isFor_iff.mp hanswers'
    exact hv.eq he ho (hv.unambiguous entry he other ho parts.2 hselector (hdistro.trans hdistro'.symm) hselector')

/-- **A reference is for the release that has it as a name.** -/
theorem find_iff (h : Catalog.load parser documents = .ok catalog) {reference : String} {entry : CatalogEntry} :
    catalog.find reference = some entry ↔ entry ∈ catalog.values ∧ entry.Named reference := by
  have hv := load_valid h
  rw [find_eq]
  constructor
  · intro hfind
    have hmem := List.mem_of_find?_eq_some hfind
    exact ⟨hmem, (answers_iff (hv.wellNamed entry hmem)).mp (List.find?_some hfind)⟩
  · rintro ⟨hmem, hnamed⟩
    have hanswers := (answers_iff (hv.wellNamed entry hmem)).mpr hnamed
    obtain ⟨found, hfound⟩ := Option.isSome_iff_exists.mp (List.find?_isSome.mpr ⟨entry, hmem, hanswers⟩)
    have hmem' := List.mem_of_find?_eq_some hfound
    have hnamed' := (answers_iff (hv.wellNamed found hmem')).mp (List.find?_some hfound)
    rw [hfound, named_unique h hmem' hmem hnamed' hnamed]

/-- A release goes by the bare name of its distribution when it is the default. -/
theorem named_distro_iff {entry : CatalogEntry} (h : entry.WellNamed) :
    entry.Named entry.distro ↔ entry.default = true := by
  rw [← answers_iff h, CatalogEntry.answers, splitOnce_distro h]
  simp

end Find

/-! ## The last document -/

/-- The release that the last of the documents to define a canonical reference gives it. -/
def lastDefined (parsed : List (List CatalogEntry)) (reference : String) : Option CatalogEntry :=
  parsed.reverse.findSome? fun entries => entries.find? (·.canonicalReference = reference)

section Load

variable {parser : UrlParser}

theorem parseEntries_nodup {document : CatalogDocument} : ∀ {raws : List RawCatalogEntry} {seen : List String}
    {entries : List CatalogEntry}, parseEntries parser document seen raws = .ok entries →
    (∀ entry ∈ entries, entry.canonicalReference ∉ seen) ∧ (entries.map CatalogEntry.canonicalReference).Nodup
  | [], _, _, h => by
    cases h
    simp
  | raw :: raws, seen, entries, h => by
    rw [parseEntries] at h
    obtain ⟨entry, _, h⟩ := Res.bind_ok h
    split at h
    · cases h
    · rename_i hnew
      obtain ⟨rest, hrest, h⟩ := Res.bind_ok h
      cases h
      obtain ⟨hseen, hnodup⟩ := parseEntries_nodup hrest
      refine ⟨?_, ?_⟩
      · rintro e (_ | ⟨_, he⟩)
        · exact hnew
        · exact fun hmem => hseen e he (List.mem_cons_of_mem _ hmem)
      · rw [List.map_cons, List.nodup_cons]
        refine ⟨fun hmem => ?_, hnodup⟩
        obtain ⟨e, he, heq⟩ := List.mem_map.mp hmem
        exact hseen e he (heq ▸ List.mem_cons_self)

/-- A document defines a canonical reference once. -/
theorem parseDocument_nodup {document : CatalogDocument} {entries : List CatalogEntry}
    (h : parseDocument parser document = .ok entries) : (entries.map CatalogEntry.canonicalReference).Nodup :=
  (parseEntries_nodup h).2

/-- The releases of one document hide those that were there before. -/
theorem lookup_insertEntries {reference : String} : ∀ {added : List CatalogEntry} {entries : List (String × CatalogEntry)},
    (added.map CatalogEntry.canonicalReference).Nodup →
    (insertEntries entries added).lookup reference =
      (added.find? (·.canonicalReference = reference)).or (entries.lookup reference)
  | [], _, _ => rfl
  | entry :: added, entries, h => by
    rw [List.map_cons, List.nodup_cons] at h
    rw [insertEntries, List.foldl_cons]
    refine (lookup_insertEntries h.2).trans ?_
    by_cases hentry : entry.canonicalReference = reference
    · -- the rest of the document does not define the reference again
      have hrest : added.find? (·.canonicalReference = reference) = none := by
        rw [List.find?_eq_none]
        intro e he heq
        exact h.1 (hentry ▸ of_decide_eq_true heq ▸ List.mem_map_of_mem he)
      rw [hrest, List.find?_cons_of_pos (by simpa using hentry), ← hentry, lookup_insertMember_self]
      rfl
    · rw [List.find?_cons_of_neg (by simpa using hentry), lookup_insertMember_ne (Ne.symm hentry)]

/-- The merge of the documents, from what was merged before them. -/
theorem lookup_foldlM : ∀ {documents : List CatalogDocument} {entries merged : List (String × CatalogEntry)},
    documents.foldlM (fun entries document => do
      return insertEntries entries (← parseDocument parser document)) entries = (.ok merged : Res _) →
    ∃ parsed, documents.mapM (parseDocument parser) = .ok parsed ∧
      (∀ added ∈ parsed, (added.map CatalogEntry.canonicalReference).Nodup) ∧
      ∀ reference, merged.lookup reference = (lastDefined parsed reference).or (entries.lookup reference)
  | [], _, _, h => by
    cases h
    exact ⟨[], rfl, by simp, fun _ => rfl⟩
  | document :: documents, entries, merged, h => by
    rw [List.foldlM_cons] at h
    obtain ⟨next, hnext, h⟩ := Res.bind_ok h
    obtain ⟨added, hadded, hnext⟩ := Res.bind_ok hnext
    cases hnext
    obtain ⟨parsed, hparsed, hnodup, hlookup⟩ := lookup_foldlM h
    refine ⟨added :: parsed, ?_, ?_, fun reference => ?_⟩
    · rw [List.mapM_cons, hadded, hparsed]
      rfl
    · rintro _ (_ | ⟨_, hmem⟩)
      · exact parseDocument_nodup hadded
      · exact hnodup _ hmem
    · rw [hlookup, lookup_insertEntries (parseDocument_nodup hadded), ← Option.or_assoc]
      congr 1
      rw [lastDefined, lastDefined, List.reverse_cons, List.findSome?_append]
      simp

/-- **A canonical reference has the release of the last document that defines it.** -/
theorem load_lookup {documents : List CatalogDocument} {catalog : Catalog}
    (h : Catalog.load parser documents = .ok catalog) :
    ∃ parsed, documents.mapM (parseDocument parser) = .ok parsed ∧
      (∀ added ∈ parsed, (added.map CatalogEntry.canonicalReference).Nodup) ∧
      ∀ reference, catalog.entries.lookup reference = lastDefined parsed reference := by
  rw [Catalog.load] at h
  obtain ⟨entries, hentries, h⟩ := Res.bind_ok h
  obtain ⟨parsed, hparsed, hnodup, hlookup⟩ := lookup_foldlM hentries
  rw [Catalog.validate] at h
  obtain ⟨_, _, h⟩ := Res.bind_ok h
  obtain ⟨_, _, h⟩ := Res.bind_ok h
  cases h
  exact ⟨parsed, hparsed, hnodup, fun reference => by rw [hlookup]; exact Option.or_none⟩

end Load

/-! ## The whole of it -/

/-- What a catalog that can be trusted with references does. -/
structure Catalog.Unambiguous (catalog : Catalog) : Prop where
  /-- No reference is a name of two releases. -/
  single : ∀ reference, ∀ entry ∈ catalog.values, ∀ other ∈ catalog.values,
    entry.Named reference → other.Named reference → entry = other
  /-- A reference finds the release that has it as a name, or nothing. -/
  find : ∀ reference entry, catalog.find reference = some entry ↔ entry ∈ catalog.values ∧ entry.Named reference
  canonical : ∀ entry ∈ catalog.values, catalog.find entry.canonicalReference = some entry
  another : ∀ entry ∈ catalog.values, ∀ name ∈ entry.aliases, catalog.find (entry.distro ++ ":" ++ name) = some entry
  /-- The bare distribution finds its default release. -/
  distro : ∀ entry ∈ catalog.values, catalog.find entry.distro = some entry ↔ entry.default = true
  /-- The canonical reference of what was resolved resolves to the same. -/
  resolve : ∀ reference architecture resolved, catalog.resolve reference architecture = .ok resolved →
    catalog.resolve resolved.canonicalReference architecture = .ok resolved

theorem unambiguous_of_load {parser : UrlParser} {documents : List CatalogDocument} {catalog : Catalog}
    (h : Catalog.load parser documents = .ok catalog) : catalog.Unambiguous where
  single _ _ he _ ho := named_unique h he ho
  find _ _ := find_iff h
  canonical _ he := (find_iff h).mpr ⟨he, .canonical⟩
  another _ he _ halias := (find_iff h).mpr ⟨he, .another halias⟩
  distro entry he := by
    rw [find_iff h, named_distro_iff ((load_valid h).wellNamed entry he)]
    exact and_iff_right he
  resolve _ _ _ hresolved := Catalog.resolve_canonical (load_valid h) hresolved

/-- **References are unambiguous**, and each release is the one of the last document that defines it. -/
theorem references_unambiguous {parser : UrlParser} {documents : List CatalogDocument} {catalog : Catalog}
    (h : Catalog.load parser documents = .ok catalog) :
    catalog.Unambiguous ∧
      ∃ parsed, documents.mapM (parseDocument parser) = .ok parsed ∧
        (∀ added ∈ parsed, (added.map CatalogEntry.canonicalReference).Nodup) ∧
        ∀ reference, catalog.entries.lookup reference = lastDefined parsed reference :=
  ⟨unambiguous_of_load h, load_lookup h⟩

/-- A parser that knows two URLs. -/
def twoUrls : UrlParser := fun value =>
  if value = "https://e/i" ∨ value = "https://e/s" then some (⟨value, "https", true, "", none, "e", none⟩, false) else none

/-- A document of the user takes the default and the alias from a release of the catalog that is built in. -/
def twoDocuments : List CatalogDocument :=
  [⟨"built-in catalog",
    [⟨"t", "1", ["s"], true, .edk2, .qcow2, none, [("x86_64", ⟨"https://e/i", some "https://e/s", none, none, .sha512⟩)]⟩], false⟩,
   ⟨"catalog 'c'",
    [⟨"t", "1", [], false, .edk2, .raw, none, [("x86_64", ⟨"https://e/i", some "https://e/s", none, none, .sha512⟩)]⟩,
     ⟨"t", "2", ["s"], true, .edk2, .raw, none, [("x86_64", ⟨"https://e/i", some "https://e/s", none, none, .sha512⟩)]⟩], true⟩]

theorem references_unambiguous_two : ∃ catalog, Catalog.load twoUrls twoDocuments = .ok catalog ∧
    (catalog.find "t").map CatalogEntry.canonicalReference = some "t:2" ∧
    (catalog.find "t:s").map CatalogEntry.canonicalReference = some "t:2" ∧ catalog.Unambiguous := by
  obtain ⟨catalog, hload, hfind⟩ := Res.exists_ok_any (x := Catalog.load twoUrls twoDocuments)
    (p := fun catalog => (catalog.find "t").map CatalogEntry.canonicalReference = some "t:2" ∧
      (catalog.find "t:s").map CatalogEntry.canonicalReference = some "t:2") (by decide)
  obtain ⟨hdefault, halias⟩ := of_decide_eq_true hfind
  exact ⟨catalog, hload, hdefault, halias, (references_unambiguous hload).1⟩

end Firestone.Image.Catalogs
