import Firestone.Spec.RealHost

/-!
# Validating a spec again

A spec that was validated is stored, and validated again when it is loaded. Its paths are absolute by then and stay as they
are. The canonical form of an image falls into the branch that made it, with one exception: the text of an OCI reference is
also a relative path, and validation looks for a file of that name first.

* `Rooted` — a spec whose paths are absolute; `resolveSpecPaths_rooted` leaves it alone.
* `Accepted` — the forms of an image that validation makes.
* `Shadowed` — an OCI reference that a file stands for.
* `validateMachineSpec_again` — a validated spec is its own validation unless its image is shadowed.
-/

namespace Firestone.Validation

open Firestone.Lib
open Firestone.Image.Sources (resolveInputPath isAbsolute_ofString)
open Firestone.Oci.Registry (OciReference)

/-! ## Paths -/

section Paths

variable {homeDir : Option OsString} {path baseDir resolved : OsString} {key : String}

theorem isAbsolute_cons (h : isAbsolute path = true) : ∃ rest, path = sep :: rest := by
  rw [isAbsolute, decide_eq_true_eq] at h
  exact List.head?_eq_some_iff.mp h

/-- A path that does not start with a tilde is taken as it is. -/
theorem resolveInputPath_plain (hne : path ≠ []) (htilde : path.head? ≠ some (.char '~')) :
    resolveInputPath homeDir path baseDir key = .ok (if isAbsolute path = true then path else joinPath baseDir path) := by
  have hname : ∀ name, (pathComponents path).head? = some (.normal name) →
      name ≠ OsString.ofString "~" ∧ name.head? ≠ some (.char '~') := by
    intro name h
    rw [← head_of_components h] at htilde
    refine ⟨?_, htilde⟩
    rintro rfl
    exact htilde rfl
  have hplain : ((.ok path : Res OsString) >>= fun expanded =>
      if isAbsolute expanded = true then pure expanded else pure (joinPath baseDir expanded)) =
      .ok (if isAbsolute path = true then path else joinPath baseDir path) := by
    change (if isAbsolute path = true then _ else _) = _
    split_ifs <;> rfl
  unfold resolveInputPath
  rw [if_neg hne]
  simp only
  cases hhead : (pathComponents path).head? with
  | none => exact hplain
  | some component =>
    cases component with
    | normal name =>
      obtain ⟨htext, hchar⟩ := hname name hhead
      simp only [if_neg htext, if_neg hchar]
      exact hplain
    | rootDir => exact hplain
    | curDir => exact hplain
    | parentDir => exact hplain

theorem resolveInputPath_self (h : isAbsolute path = true) : resolveInputPath homeDir path baseDir key = .ok path := by
  obtain ⟨rest, rfl⟩ := isAbsolute_cons h
  rw [resolveInputPath_plain (List.cons_ne_nil _ _) (by rw [List.head?_cons]; decide), if_pos h]

/-- Below an absolute directory every path becomes absolute. -/
theorem isAbsolute_resolveInputPath (hbase : isAbsolute baseDir = true)
    (h : resolveInputPath homeDir path baseDir key = .ok resolved) : isAbsolute resolved = true := by
  have hlast : ∀ x : Res OsString, (x >>= fun expanded =>
      if isAbsolute expanded = true then pure expanded else pure (joinPath baseDir expanded)) = .ok resolved →
      isAbsolute resolved = true := by
    intro x hx
    obtain ⟨expanded, -, hresolved⟩ := Res.bind_ok hx
    split at hresolved
    · rename_i habsolute
      cases hresolved
      exact habsolute
    · cases hresolved
      exact isAbsolute_joinPath hbase
  unfold resolveInputPath at h
  split at h
  · cases h
  simp only at h
  split at h
  · split at h
    · split at h <;> exact hlast _ h
    · split at h <;> exact hlast _ h
  · exact hlast _ h

end Paths

/-! ## Specs whose paths are absolute -/

structure Rooted (spec : MachineSpec) : Prop where
  mounts : ∀ mount ∈ spec.mounts, isAbsolute mount.host = true
  userData : ∀ path ∈ spec.cloudInit.userData, isAbsolute path = true
  networkConfig : ∀ path ∈ spec.cloudInit.networkConfig, isAbsolute path = true
  sshKeys : ∀ path ∈ spec.cloudInit.sshKeys, isAbsolute path = true
  binary : ∀ path ∈ spec.vmm.binary, isAbsolute path = true
  firmware : ∀ path ∈ spec.vmm.firmware.asPath, isAbsolute path = true ∧ Firmware.ofPath path = some spec.vmm.firmware

theorem Firmware.asPath_ofPath {path : OsString} {firmware : Firmware} (h : Firmware.ofPath path = some firmware) :
    firmware.asPath = some path := by
  unfold Firmware.ofPath at h
  split at h
  · cases h
  · rename_i text htext
    split_ifs at h
    cases h
    rw [Firmware.asPath, OsString.ofString_of_toStr htext]

section Context

variable {context : ValidationContext}

theorem resolveFirmware_rooted (hdir : isAbsolute context.machineDir = true) {firmware resolved : Firmware}
    (h : resolveFirmware context firmware = .ok resolved) :
    ∀ path ∈ resolved.asPath, isAbsolute path = true ∧ Firmware.ofPath path = some resolved := by
  unfold resolveFirmware at h
  split at h
  · rename_i hnone
    cases h
    rw [hnone]
    simp
  · obtain ⟨path, hpath, hfirmware⟩ := Res.bind_ok h
    split at hfirmware
    · rename_i hof
      cases hfirmware
      rw [Firmware.asPath_ofPath hof]
      rintro _ ⟨⟩
      exact ⟨isAbsolute_resolveInputPath hdir hpath, hof⟩
    · cases hfirmware

theorem rooted_resolveSpecPaths (hdir : isAbsolute context.machineDir = true) {spec resolved : MachineSpec}
    (h : resolveSpecPaths context spec = .ok resolved) : Rooted resolved := by
  unfold resolveSpecPaths at h
  obtain ⟨mounts, hmounts, h⟩ := Res.bind_ok h
  obtain ⟨userData, huserData, h⟩ := Res.bind_ok h
  obtain ⟨networkConfig, hnetworkConfig, h⟩ := Res.bind_ok h
  obtain ⟨sshKeys, hsshKeys, h⟩ := Res.bind_ok h
  obtain ⟨binary, hbinary, h⟩ := Res.bind_ok h
  obtain ⟨firmware, hfirmware, h⟩ := Res.bind_ok h
  cases h
  refine ⟨forall_of_mapM ?_ hmounts, forall_of_optionMapM ?_ huserData, forall_of_optionMapM ?_ hnetworkConfig,
    forall_of_mapM ?_ hsshKeys, forall_of_optionMapM ?_ hbinary, resolveFirmware_rooted hdir hfirmware⟩
  · rintro mount _ hmount
    obtain ⟨host, hhost, hresult⟩ := Res.bind_ok hmount
    cases hresult
    exact isAbsolute_resolveInputPath hdir hhost
  all_goals exact fun _ _ => isAbsolute_resolveInputPath hdir

theorem resolveSpecPaths_rooted {spec : MachineSpec} (h : Rooted spec) : resolveSpecPaths context spec = .ok spec := by
  have hmounts : spec.mounts.zipIdx.mapM (resolveMount context) = .ok spec.mounts := by
    refine mapM_zipIdx_self 0 fun mount hmount index => ?_
    rw [resolveMount, resolvePath, resolveInputPath_self (h.mounts mount hmount)]
    rfl
  have huserData : (spec.cloudInit.userData.mapM fun path => resolvePath context path "cloud_init.user_data") =
      .ok spec.cloudInit.userData := optionMapM_self fun path hpath => resolveInputPath_self (h.userData path hpath)
  have hnetworkConfig : (spec.cloudInit.networkConfig.mapM fun path =>
      resolvePath context path "cloud_init.network_config") = .ok spec.cloudInit.networkConfig :=
    optionMapM_self fun path hpath => resolveInputPath_self (h.networkConfig path hpath)
  have hsshKeys : (spec.cloudInit.sshKeys.zipIdx.mapM fun path =>
      resolvePath context path.1 ("cloud_init.ssh_keys[" ++ toString path.2 ++ "]")) = .ok spec.cloudInit.sshKeys :=
    mapM_zipIdx_self 0 fun path hpath index => resolveInputPath_self (h.sshKeys path hpath)
  have hbinary : (spec.vmm.binary.mapM fun path => resolvePath context path "vmm.binary") = .ok spec.vmm.binary :=
    optionMapM_self fun path hpath => resolveInputPath_self (h.binary path hpath)
  have hfirmware : resolveFirmware context spec.vmm.firmware = .ok spec.vmm.firmware := by
    unfold resolveFirmware
    cases hpath : spec.vmm.firmware.asPath with
    | none => rfl
    | some path =>
      obtain ⟨habsolute, hof⟩ := h.firmware path hpath
      refine Res.bind_ok_iff.mpr ⟨path, resolveInputPath_self habsolute, ?_⟩
      rw [hof]
  rw [resolveSpecPaths, hmounts, huserData, hnetworkConfig, hsshKeys, hbinary, hfirmware]
  rfl

end Context

/-! ## The text of an OCI reference -/

theorem tilde_notMem_label {label : String} (h : Oci.References.checkLabel label = .ok ()) : '~' ∉ label.toList := by
  unfold Oci.References.checkLabel at h
  split_ifs at h with hempty hlong hchars hhyphen
  simp only [Bool.not_eq_true', Bool.not_eq_false, List.all_eq_true] at hchars
  intro hmem
  exact absurd (hchars '~' hmem) (by decide)

theorem tilde_notMem_port {port : String} (h : Oci.References.checkPort port = .ok ()) : '~' ∉ port.toList := by
  unfold Oci.References.checkPort at h
  split at h
  · cases h
  · rename_i hport
    rw [not_or, Bool.not_eq_false, List.all_eq_true] at hport
    intro hmem
    exact absurd (hport.2 '~' hmem) (by decide)

/-- The host has labels, and a port may follow it. -/
theorem checkRegistryHost_parts {registry : String} (h : Oci.References.checkRegistryHost registry = .ok ()) :
    (∀ label ∈ splitText '.' (Oci.References.hostAndPort registry).1, Oci.References.checkLabel label = .ok ()) ∧
      ∀ port ∈ (Oci.References.hostAndPort registry).2, Oci.References.checkPort port = .ok () := by
  unfold Oci.References.checkRegistryHost at h
  split at h
  · cases h
  split at h
  · cases h
  split at h
  · cases h
  split at h
  · cases h
  generalize Oci.References.hostAndPort registry = parts at h ⊢
  obtain ⟨host, port⟩ := parts
  simp only at h ⊢
  have hlabels : ∀ x : Except String Unit, (x >>= fun _ => if host = "" then Except.error "the host is empty"
      else (splitText '.' host).forM Oci.References.checkLabel) = .ok () →
      ∀ label ∈ splitText '.' host, Oci.References.checkLabel label = .ok () := by
    intro x hx
    cases x with
    | error detail => cases hx
    | ok _ =>
      change (if host = "" then _ else _) = _ at hx
      split at hx
      · cases hx
      · exact forM_ok_iff.mp hx
  cases port with
  | none => exact ⟨hlabels _ h, fun port hport => by cases hport⟩
  | some port =>
    refine ⟨hlabels _ h, ?_⟩
    rintro _ ⟨⟩
    cases hcheck : Oci.References.checkPort port with
    | error detail =>
      simp only [hcheck] at h
      cases h
    | ok _ => rfl

/-- No registry has a tilde. -/
theorem tilde_notMem_registry {registry : String} (h : Oci.References.checkRegistryHost registry = .ok ()) :
    '~' ∉ registry.toList := by
  obtain ⟨hlabels, hport⟩ := checkRegistryHost_parts h
  have hhost : ∀ host, (∀ label ∈ splitText '.' host, Oci.References.checkLabel label = .ok ()) → '~' ∉ host.toList := by
    intro host hall hmem
    rcases mem_splitText (c := '.') hmem with hdot | ⟨label, hlabel, hin⟩
    · cases hdot
    · exact tilde_notMem_label (hall label hlabel) hin
  unfold Oci.References.hostAndPort at hlabels hport
  cases hsplit : splitOnce ':' registry with
  | none =>
    rw [hsplit] at hlabels
    exact hhost registry hlabels
  | some parts =>
    obtain ⟨host, port⟩ := parts
    rw [hsplit] at hlabels hport
    rw [eq_of_splitOnce hsplit, List.mem_append, List.mem_cons]
    rintro (hmem | hcolon | hmem)
    · exact hhost host hlabels hmem
    · cases hcolon
    · exact tilde_notMem_port (hport port rfl) hmem

theorem trim_text (r : OciReference) : trim r.text ≠ "" := by
  obtain ⟨rest, hrest⟩ := Oci.References.exists_text r
  have hslash : '/' ∈ r.text.toList := by
    rw [hrest, String.toList_ofList]
    simp
  exact trim_ne_empty hslash (by decide)

section Text

variable {r : OciReference} (h : Oci.References.Canonical r)

include h

/-- The text starts with a character of the registry, and is a relative path. -/
theorem text_relative : OsString.ofString r.text ≠ [] ∧ (OsString.ofString r.text).head? ≠ some (.char '~') ∧
    isAbsolute (OsString.ofString r.text) = false := by
  obtain ⟨rest, hrest⟩ := Oci.References.exists_text r
  have htext : r.text.toList = r.registry.toList ++ '/' :: rest := by rw [hrest, String.toList_ofList]
  have hslash := (Oci.References.not_mem_registry h.registry).1
  have htilde := tilde_notMem_registry h.registry
  have hne : r.registry.toList ≠ [] := by
    intro hnil
    have hempty : r.registry = "" := String.toList_inj.mp hnil
    have hcheck := h.registry
    rw [hempty] at hcheck
    cases hcheck
  obtain ⟨c, tail, hc⟩ := List.exists_cons_of_ne_nil hne
  rw [hc] at hslash htilde
  have hof : OsString.ofString r.text = .char c :: (tail ++ '/' :: rest).map OsChar.char := by
    rw [OsString.ofString, htext, hc]
    rfl
  rw [hof]
  refine ⟨List.cons_ne_nil _ _, ?_, ?_⟩
  · rw [List.head?_cons, Ne, Option.some.injEq, OsChar.char.injEq]
    rintro rfl
    exact htilde List.mem_cons_self
  · rw [isAbsolute, List.head?_cons, decide_eq_false_iff_not, Option.some.injEq, sep, OsChar.char.injEq]
    rintro rfl
    exact hslash List.mem_cons_self

end Text

/-! ## Images -/

/-- The image is taken for an OCI reference: it is not pinned, no file has its name, and it parses. -/
structure AsOci (context : ValidationContext) (image : String) (r : OciReference) : Prop where
  unpinned : context.pinnedImageRef ≠ some image
  missing : ∃ candidate, imagePath context image context.machineDir = .ok candidate ∧
    context.host.pathExists candidate = .ok false
  classified : (Oci.References.classify image).isSome
  parsed : Oci.References.parse image = .ok r

/-- The canonical form of the image is not pinned, and below the directory of the machine something may have its name. -/
def Shadowed (context : ValidationContext) (image : String) : Prop :=
  ∃ r, AsOci context image r ∧ context.pinnedImageRef ≠ some r.text ∧
    context.host.pathExists (joinPath context.machineDir (.ofString r.text)) ≠ .ok false

section Image

variable {context : ValidationContext} {arch : Arch} {candidate : OsString} {image result : ImageRef}

theorem hostPathExists_ok {host : ValidationHost} {key : String} {path : OsString} {found : Bool} :
    hostPathExists host key path = .ok found ↔ host.pathExists path = .ok found := by
  unfold hostPathExists
  split
  · rename_i hfound
    rw [hfound]
    simp
  · rename_i hfound
    rw [hfound]
    simp

theorem requireRegularFile_ok {host : ValidationHost} {key hint : String} {path : OsString} :
    requireRegularFile host key path hint = .ok () ↔ host.pathIsFile path = .ok true := by
  unfold requireRegularFile
  split
  all_goals
    rename_i hfile
    rw [hfile]
    simp

theorem requireReadable_ok {host : ValidationHost} {key hint : String} {path : OsString} :
    requireReadable host key path hint = .ok () ↔ host.pathIsReadable path = .ok true := by
  unfold requireReadable
  split
  all_goals
    rename_i hreadable
    rw [hreadable]
    simp

/-- A local image becomes its canonical path. -/
theorem validateLocalImage_ok : validateLocalImage context candidate = .ok result ↔
    context.host.pathIsFile candidate = .ok true ∧ context.host.pathIsReadable candidate = .ok true ∧
      context.host.canonicalizeRegularNofollow candidate = .ok (.ofString result.text) := by
  unfold validateLocalImage
  simp only [Res.bind_ok_iff]
  constructor
  · rintro ⟨_, hfile, _, hreadable, h⟩
    refine ⟨requireRegularFile_ok.mp hfile, requireReadable_ok.mp hreadable, ?_⟩
    split at h
    · rename_i canonical hcanonical
      unfold imageRefFromPath at h
      split at h
      · rename_i text htext
        cases h
        rw [hcanonical, OsString.ofString_of_toStr htext]
      · cases h
    · cases h
  · rintro ⟨hfile, hreadable, hcanonical⟩
    refine ⟨(), requireRegularFile_ok.mpr hfile, (), requireReadable_ok.mpr hreadable, ?_⟩
    rw [hcanonical]
    simp only [imageRefFromPath, OsString.toStr_ofString]

/-- A URL and a reference to the catalog stay as they are. -/
theorem validateNamedImage_ok (h : validateNamedImage context arch candidate image = .ok result) : result = image := by
  unfold validateNamedImage at h
  split at h
  · obtain ⟨-, -, h⟩ := Res.bind_ok h
    cases h
    rfl
  · split at h
    · cases h
      rfl
    · split at h
      · cases h
      · split at h <;> cases h

theorem validateRemoteImage_ok (h : validateRemoteImage context arch candidate image = .ok result) :
    result = image ∧ (∀ r, (Oci.References.classify image.text).isSome → Oci.References.parse image.text ≠ .ok r) ∨
      ∃ r, (Oci.References.classify image.text).isSome ∧ Oci.References.parse image.text = .ok r ∧ result = ⟨r.text⟩ := by
  unfold validateRemoteImage at h
  split at h
  · rename_i hnone
    refine .inl ⟨validateNamedImage_ok h, fun r hsome => ?_⟩
    rw [hnone] at hsome
    cases hsome
  · rename_i classification hclass
    rw [hclass]
    split at h
    · rename_i r hparse
      cases h
      exact .inr ⟨r, rfl, hparse, rfl⟩
    · rename_i error hparse
      split at h
      · cases h
      · refine .inl ⟨validateNamedImage_ok h, fun r _ => ?_⟩
        rw [hparse]
        exact fun h => by cases h

/-- An image that is neither blank nor pinned. -/
theorem validateImage_unpinned (hblank : trim image.text ≠ "") (hpinned : context.pinnedImageRef ≠ some image.text)
    {baseDir : OsString} (hpath : imagePath context image.text baseDir = .ok candidate) :
    validateImage context arch baseDir image = .ok result ↔
      context.host.pathExists candidate = .ok true ∧ validateLocalImage context candidate = .ok result ∨
        context.host.pathExists candidate = .ok false ∧ validateRemoteImage context arch candidate image = .ok result := by
  rw [validateImage, if_neg hblank, if_neg hpinned, hpath]
  change (hostPathExists context.host "image" candidate >>= _) = _ ↔ _
  rw [Res.bind_ok_iff]
  constructor
  · rintro ⟨found, hfound, h⟩
    rw [hostPathExists_ok] at hfound
    cases found with
    | true => exact .inl ⟨hfound, h⟩
    | false => exact .inr ⟨hfound, h⟩
  · rintro (⟨hfound, h⟩ | ⟨hfound, h⟩)
    · exact ⟨true, hostPathExists_ok.mpr hfound, h⟩
    · exact ⟨false, hostPathExists_ok.mpr hfound, h⟩

/-- The text of a reference is looked for below the directory of the machine. -/
theorem imagePath_text {r : OciReference} (h : Oci.References.Canonical r) (baseDir : OsString) :
    imagePath context r.text baseDir = .ok (joinPath baseDir (.ofString r.text)) := by
  obtain ⟨hne, htilde, hrelative⟩ := text_relative h
  rw [imagePath, resolveInputPath_plain hne htilde, hrelative, if_neg Bool.false_ne_true]

/-- Without a file of that name the text of a reference stays as it is. -/
theorem validateImage_text {r : OciReference} (h : Oci.References.Canonical r) (hhost : context.host.Lawful)
    (hpinned : context.pinnedImageRef ≠ some r.text) :
    validateImage context arch context.machineDir ⟨r.text⟩ = .ok ⟨r.text⟩ ↔
      context.host.pathExists (joinPath context.machineDir (.ofString r.text)) = .ok false := by
  have hblank : trim (⟨r.text⟩ : ImageRef).text ≠ "" := trim_text r
  have hpath : imagePath context (⟨r.text⟩ : ImageRef).text context.machineDir =
      .ok (joinPath context.machineDir (.ofString r.text)) := imagePath_text h context.machineDir
  rw [validateImage_unpinned hblank hpinned hpath]
  constructor
  · rintro (⟨-, hlocal⟩ | ⟨hmissing, -⟩)
    · obtain ⟨-, -, hcanonical⟩ := validateLocalImage_ok.mp hlocal
      have habsolute := (hhost _ _ hcanonical).1
      rw [(text_relative h).2.2] at habsolute
      cases habsolute
    · exact hmissing
  · intro hmissing
    refine .inr ⟨hmissing, ?_⟩
    rw [validateRemoteImage, Oci.References.classify_text h]
    simp only [Oci.References.parse_text h]

/-- A local image is its own canonical form. -/
theorem validateImage_file (hhost : context.host.Lawful) (h : validateLocalImage context candidate = .ok result) :
    validateImage context arch context.machineDir result = .ok result := by
  obtain ⟨-, hreadable, hcanonical⟩ := validateLocalImage_ok.mp h
  obtain ⟨habsolute, hagain, hexists, hfile, hsame⟩ := hhost _ _ hcanonical
  have hslash : '/' ∈ result.text.toList := List.mem_of_mem_head? (isAbsolute_ofString.mp habsolute)
  by_cases hpinned : context.pinnedImageRef = some result.text
  · rw [validateImage, if_neg (trim_ne_empty hslash (by decide)), if_pos hpinned]
  · rw [validateImage_unpinned (trim_ne_empty hslash (by decide)) hpinned (resolveInputPath_self habsolute)]
    exact .inl ⟨hexists, validateLocalImage_ok.mpr ⟨hfile, hsame.trans hreadable, hagain⟩⟩

/-- The canonical form of an image is its own canonical form unless the image is shadowed. -/
theorem validateImage_again (hhost : context.host.Lawful)
    (h : validateImage context arch context.machineDir image = .ok result) :
    validateImage context arch context.machineDir result = .ok result ↔ ¬ Shadowed context image.text := by
  have hfirst := h
  unfold validateImage at hfirst
  split at hfirst
  · cases hfirst
  rename_i hblank
  split at hfirst
  · rename_i hpinned
    cases hfirst
    exact ⟨fun _ ⟨r, hoci, _⟩ => hoci.unpinned hpinned, fun _ => h⟩
  rename_i hpinned
  obtain ⟨candidate, hpath, -⟩ := Res.bind_ok hfirst
  have hmissing : ∀ r, AsOci context image.text r → context.host.pathExists candidate = .ok false := by
    rintro r ⟨-, ⟨other, hother, hmissing⟩, -, -⟩
    rw [hpath, Except.ok.injEq] at hother
    rwa [hother]
  rcases (validateImage_unpinned hblank hpinned hpath).mp h with ⟨hexists, hlocal⟩ | ⟨hfalse, hremote⟩
  · refine ⟨fun _ ⟨r, hoci, _⟩ => ?_, fun _ => validateImage_file hhost hlocal⟩
    have hno := hmissing r hoci
    rw [hexists] at hno
    cases hno
  · rcases validateRemoteImage_ok hremote with ⟨rfl, hother⟩ | ⟨r, hclass, hparse, rfl⟩
    · exact ⟨fun _ ⟨r, hoci, _⟩ => hother r hoci.classified hoci.parsed, fun _ => h⟩
    · have hcanonical := Oci.References.parse_canonical hparse
      have hoci : AsOci context image.text r := ⟨hpinned, ⟨candidate, hpath, hfalse⟩, hclass, hparse⟩
      have hshadowed : Shadowed context image.text ↔ context.pinnedImageRef ≠ some r.text ∧
          context.host.pathExists (joinPath context.machineDir (.ofString r.text)) ≠ .ok false := by
        constructor
        · rintro ⟨r', hoci', hrest⟩
          have hsame := hoci'.parsed
          rw [hparse, Except.ok.injEq] at hsame
          rwa [hsame]
        · exact fun hrest => ⟨r, hoci, hrest⟩
      rw [hshadowed]
      by_cases hagain : context.pinnedImageRef = some r.text
      · refine ⟨fun _ h => h.1 hagain, fun _ => ?_⟩
        rw [validateImage, if_neg (trim_text r), if_pos hagain]
      · rw [validateImage_text hcanonical hhost hagain, not_and, not_not]
        exact ⟨fun hno _ => hno, fun hno => hno hagain⟩

end Image

/-! ## Specs -/

section Spec

variable {context : ValidationContext}

/-- What a validation went through. -/
theorem validateMachineSpec_ok {spec result : MachineSpec} {warnings : List SpecWarning} :
    validateMachineSpec context spec = .ok (result, warnings) ↔ ∃ resolved arch image,
      resolveSpecPaths context spec = .ok resolved ∧ validateArch context resolved = .ok arch ∧
        validateImage context arch context.machineDir resolved.image = .ok image ∧ result = { resolved with image } ∧
        validateResolved context result = .ok warnings := by
  unfold validateMachineSpec validateMachineSpecWithImageBase
  simp only [Res.bind_ok_iff]
  constructor
  · rintro ⟨resolved, hresolved, arch, harch, image, himage, found, hfound, h⟩
    cases h
    exact ⟨resolved, arch, image, hresolved, harch, himage, rfl, hfound⟩
  · rintro ⟨resolved, arch, image, hresolved, harch, himage, rfl, hwarnings⟩
    exact ⟨resolved, hresolved, arch, harch, image, himage, warnings, hwarnings, rfl⟩

theorem resolveSpecPaths_image {spec resolved : MachineSpec} (h : resolveSpecPaths context spec = .ok resolved) :
    resolved.image = spec.image := by
  unfold resolveSpecPaths at h
  obtain ⟨mounts, -, h⟩ := Res.bind_ok h
  obtain ⟨userData, -, h⟩ := Res.bind_ok h
  obtain ⟨networkConfig, -, h⟩ := Res.bind_ok h
  obtain ⟨sshKeys, -, h⟩ := Res.bind_ok h
  obtain ⟨binary, -, h⟩ := Res.bind_ok h
  obtain ⟨firmware, -, h⟩ := Res.bind_ok h
  cases h
  rfl

/-- A validated spec has absolute paths. -/
theorem rooted_validateMachineSpec (hdir : isAbsolute context.machineDir = true) {spec result : MachineSpec}
    {warnings : List SpecWarning} (h : validateMachineSpec context spec = .ok (result, warnings)) : Rooted result := by
  obtain ⟨resolved, arch, image, hresolved, -, -, rfl, -⟩ := validateMachineSpec_ok.mp h
  exact { rooted_resolveSpecPaths hdir hresolved with }

/-- Only the image may make a difference when a validated spec is validated again. -/
theorem validateMachineSpec_result (hdir : isAbsolute context.machineDir = true) {spec result : MachineSpec}
    {warnings : List SpecWarning} (h : validateMachineSpec context spec = .ok (result, warnings)) : ∃ arch,
    validateImage context arch context.machineDir spec.image = .ok result.image ∧
      ((∃ again, validateMachineSpec context result = .ok (result, again)) ↔
        validateImage context arch context.machineDir result.image = .ok result.image) := by
  have hrooted : resolveSpecPaths context result = .ok result := resolveSpecPaths_rooted (rooted_validateMachineSpec hdir h)
  obtain ⟨resolved, arch, image, hresolved, harch, himage, rfl, hwarnings⟩ := validateMachineSpec_ok.mp h
  refine ⟨arch, resolveSpecPaths_image hresolved ▸ himage, ?_, ?_⟩
  · rintro ⟨again, hagain⟩
    obtain ⟨resolved', arch', image', hresolved', harch', himage', heq, -⟩ := validateMachineSpec_ok.mp hagain
    rw [hrooted, Except.ok.injEq] at hresolved'
    subst hresolved'
    have hsame : arch' = arch := by
      change validateArch context resolved = .ok arch' at harch'
      rw [harch, Except.ok.injEq] at harch'
      exact harch'.symm
    subst hsame
    have himages : image = image' := congrArg MachineSpec.image heq
    rw [← himages] at himage'
    exact himage'
  · intro hagain
    exact ⟨warnings, validateMachineSpec_ok.mpr ⟨_, arch, image, hrooted, harch, hagain, rfl, hwarnings⟩⟩

/-- A validated spec is validated to itself unless its image is shadowed. -/
theorem validateMachineSpec_again (hhost : context.host.Lawful) (hdir : isAbsolute context.machineDir = true)
    {spec result : MachineSpec} {warnings : List SpecWarning}
    (h : validateMachineSpec context spec = .ok (result, warnings)) :
    (∃ again, validateMachineSpec context result = .ok (result, again)) ↔ ¬ Shadowed context spec.image.text := by
  obtain ⟨arch, himage, hresult⟩ := validateMachineSpec_result hdir h
  exact hresult.trans (validateImage_again hhost himage)

end Spec

/-! ## A file in the way -/

/-- A machine directory that has a file with the name of an image. -/
def nginxContext : ValidationContext where
  host := realValidationHost (flatSystem [(.ofString "/m/docker.io/library/nginx:latest", [])])
  homeDir := none
  machineDir := .ofString "/m"
  catalog := ⟨[]⟩
  parser _ := none
  fromOpenssh _ := none

theorem nginxContext_lawful : nginxContext.host.Lawful := realValidationHost_lawful (flatSystem_lawful _)

/-- The short reference is accepted, for no file has its name. -/
theorem nginx_validated : validateMachineSpec nginxContext { image := ⟨"docker://nginx"⟩ } =
    .ok ({ image := ⟨"docker.io/library/nginx:latest"⟩ }, []) :=
  validateMachineSpec_ok.mpr ⟨_, .x86_64, _, rfl, rfl, rfl, rfl, rfl⟩

theorem validateMachineSpec_again_nginx :
    (∃ again, validateMachineSpec nginxContext { image := ⟨"docker.io/library/nginx:latest"⟩ } =
      .ok ({ image := ⟨"docker.io/library/nginx:latest"⟩ }, again)) ↔ ¬ Shadowed nginxContext "docker://nginx" :=
  validateMachineSpec_again nginxContext_lawful (by decide) nginx_validated

/-- The canonical reference is not its own validation: the file in the machine directory is taken for the image. -/
theorem nginx_shadowed : validateMachineSpec nginxContext { image := ⟨"docker://nginx"⟩ } =
      .ok ({ image := ⟨"docker.io/library/nginx:latest"⟩ }, []) ∧
    validateMachineSpec nginxContext { image := ⟨"docker.io/library/nginx:latest"⟩ } =
      .ok ({ image := ⟨"/m/docker.io/library/nginx:latest"⟩ }, []) :=
  ⟨nginx_validated, validateMachineSpec_ok.mpr ⟨_, .x86_64, _, rfl, rfl, rfl, rfl, rfl⟩⟩

end Firestone.Validation
