import Firestone.Lib.TextLines
import Firestone.Spec.Patches
import Firestone.Spec.Values

/-!
# The create dialog

The create dialog of the browser interface shows the spec that a new machine would have, as texts in the fields of a form. The
submitted form becomes a patch, which is layered over the same global defaults.

* `CreateForm.fromDefaults`, `CreateForm.toPatch` — the form of a spec, and the patch of a form.
* `parseMount_mountLine` — a mount is written as it is read.
* `toPatch_fromDefaults` — the patch of the form as it was rendered.
* `create_dialog_exact` — the dialog creates what it shows exactly when no list is shown and every text is its own trimming.
-/

namespace Firestone.Ui

open Firestone.Lib

/-! ## Mounts -/

def mountFormError : String := "mount must have the form HOST:GUEST[:ro]"

/-- `parse_mount` of the command line. -/
def parseMount (value : String) : Except String MountSpec :=
  match splitText ':' value with
  | host :: guest :: access =>
    if host = "" ∨ guest = "" ∨ 1 < access.length then .error mountFormError
    else match access with
      | [] => .ok { host := host, guest := guest, readonly := false, tag := none }
      | mode :: _ =>
        if mode = "ro" then .ok { host := host, guest := guest, readonly := true, tag := none }
        else .error "mount access mode must be 'ro' when present"
  | _ => .error mountFormError

def mountLine (mount : MountSpec) : String := mount.host ++ ":" ++ mount.guest ++ if mount.readonly then ":ro" else ""

/-! ## The form -/

/-- The fields of the create dialog. -/
structure CreateForm where
  name : String
  image : String
  cpus : String
  memory : String
  disk : String
  user : String
  netMode : String
  forward : String
  tap : String
  mac : String
  mounts : String
  userDataInline : String
  sshAuthorizedKeys : String
  password : String
  sshPwauth : String
  provisioning : String
  provisioningSection : String
  deriving DecidableEq, Repr

def netModeToken : NetMode → String
  | .passt => "passt"
  | .tap => "tap"
  | .none => "none"

def checkbox (value : Bool) : String := if value then "on" else ""

def isChecked (value : String) : Bool := trim value ≠ ""

/-- The form that shows a spec. The password is never shown. -/
def CreateForm.fromDefaults (spec : MachineSpec) : CreateForm where
  name := ""
  image := spec.image.text
  cpus := toString spec.cpus.toNat
  memory := spec.memory.display
  disk := spec.disk.display
  user := spec.user
  netMode := netModeToken spec.network.mode
  forward := ", ".intercalate (spec.network.forward.map PortForward.display)
  tap := spec.network.tap.getD ""
  mac := (spec.network.mac.map MacAddr.display).getD ""
  mounts := "\n".intercalate (spec.mounts.map mountLine)
  userDataInline := spec.cloudInit.userDataInline.getD ""
  sshAuthorizedKeys := "\n".intercalate spec.cloudInit.sshAuthorizedKeys
  password := ""
  sshPwauth := checkbox spec.cloudInit.sshPwauth
  provisioning := checkbox spec.cloudInit.provisioning
  provisioningSection := "1"

/-! ## Fields -/

/-- What a field says when it is wrong. -/
structure FieldError where
  field : String
  message : String
  deriving DecidableEq, Repr

/-- A field gives a value for the patch, or nothing, or it is wrong. -/
abbrev Field (α : Type) := Except FieldError (Option α)

def Field.value {α : Type} : Field α → Option α
  | .ok value => value
  | .error _ => none

def nameField (name : String) : Field Unit :=
  if trim name = "" then .error ⟨"name", "a machine needs a name"⟩ else .ok none

def imageField (image : String) : Field ImageRef :=
  if trim image = "" then .error ⟨"image", "an image reference is required"⟩ else .ok (some ⟨trim image⟩)

def cpusField (cpus : String) : Field UInt8 :=
  if trim cpus = "" then .ok none
  else match fromStrRadix 10 256 (trim cpus).toList with
    | some n => if 1 ≤ n then .ok (some (UInt8.ofNat n)) else .error ⟨"cpus", "cpus must be 1 through 255"⟩
    | none => .error ⟨"cpus", "cpus must be 1 through 255"⟩

/-- `parse_into`: a value that is read from its trimmed text. -/
def parseInto {α : Type} (raw field message : String) (fromStr : String → Option α) : Field α :=
  if trim raw = "" then .ok none
  else match fromStr (trim raw) with
    | some value => .ok (some value)
    | none => .error ⟨field, message⟩

def sizeMessage : String := "expected a size such as '512M' or '4G', or an integer number of MiB"

/-- A text that is taken trimmed, or left unset. -/
def trimmedField (raw : String) : Option String := if trim raw = "" then none else some (trim raw)

def netModeField (mode : String) : Field NetMode :=
  if trim mode = "" then .ok none
  else if trim mode = "passt" then .ok (some .passt)
  else if trim mode = "tap" then .ok (some .tap)
  else if trim mode = "none" then .ok (some .none)
  else .error ⟨"net_mode", trim mode ++ " is not a network mode; use passt, tap or none"⟩

/-- What the texts parse to, and what is wrong with those that do not. -/
def parseAll {α ε : Type} (parse : String → Except ε α) (texts : List String) : List α × List (String × ε) :=
  (texts.filterMap fun text => (parse text).toOption,
    texts.filterMap fun text => match parse text with
      | .ok _ => none
      | .error error => some (text, error))

/-- The last wrong forward gives the message. -/
def forwardField (forward : String) : Field (List PortForward) :=
  let forwards := nonBlank (splitText ',' forward)
  let (parsed, wrong) := parseAll PortForward.fromStr forwards
  match wrong.getLast? with
  | some (value, error) => .error ⟨"forward", value ++ ": " ++ error.display⟩
  | none => .ok (if forwards = [] then none else some parsed)

/-- Every wrong row gives a message; blank rows are not counted. -/
def mountsField (mounts : String) : Field (List MountSpec) :=
  let rows := nonBlank (textLines mounts)
  let (parsed, _) := parseAll parseMount rows
  let wrong := rows.zipIdx.filterMap fun (line, i) => match parseMount line with
    | .ok _ => none
    | .error error => some ("row " ++ toString (i + 1) ++ ": " ++ error)
  if wrong = [] then .ok (if parsed = [] then none else some parsed)
  else .error ⟨"mounts", "; ".intercalate wrong⟩

def userDataField (raw : String) : Option String :=
  let userData := String.ofList (replaceCrlf raw.toList)
  if trim userData = "" then none else some userData

def keysField (raw : String) : Option (List String) :=
  let keys := nonBlank (textLines raw)
  if keys = [] then none else some keys

/-- A password is not trimmed. -/
def passwordField (raw : String) : Option String := if raw = "" then none else some raw

/-- A checkbox is read only where its section was rendered. -/
def checkboxField (sectionMark raw : String) : Option Bool := if trim sectionMark = "" then none else some (isChecked raw)

/-- The provisioning section; a section that says nothing gives no patch. -/
def CreateForm.cloudInitPatch (form : CreateForm) : Option CloudInitSpecPatch :=
  let patch : CloudInitSpecPatch :=
    { userDataInline := userDataField form.userDataInline
      sshAuthorizedKeys := keysField form.sshAuthorizedKeys
      password := passwordField form.password
      sshPwauth := checkboxField form.provisioningSection form.sshPwauth
      provisioning := checkboxField form.provisioningSection form.provisioning }
  if patch = {} then none else some patch

/-! ## The patch -/

/-- The messages by their fields, in the order of the fields. -/
abbrev FieldErrors := List (String × String)

def insertError (field message : String) : FieldErrors → FieldErrors
  | [] => [(field, message)]
  | entry :: errors =>
    if field < entry.1 then (field, message) :: entry :: errors
    else if field = entry.1 then (field, message) :: errors
    else entry :: insertError field message errors

def addError {α : Type} (field : Field α) (errors : FieldErrors) : FieldErrors :=
  match field with
  | .ok _ => errors
  | .error error => insertError error.field error.message errors

/-- The patch of a form, or what is wrong with each of its fields. -/
def CreateForm.toPatch (form : CreateForm) : Except FieldErrors MachineSpecPatch :=
  let name := nameField form.name
  let image := imageField form.image
  let cpus := cpusField form.cpus
  let memory := parseInto form.memory "memory" sizeMessage ByteSize.fromStr
  let disk := parseInto form.disk "disk" sizeMessage ByteSize.fromStr
  let mode := netModeField form.netMode
  let forward := forwardField form.forward
  let mac := parseInto form.mac "mac" (trim form.mac ++ ": expected six hexadecimal octets such as 52:54:00:9a:1f:c3")
    MacAddr.fromStr
  let mounts := mountsField form.mounts
  let errors := addError name [] |> addError image |> addError cpus |> addError memory |> addError disk |> addError mode
    |> addError forward |> addError mac |> addError mounts
  if errors = [] then
    .ok
      { image := image.value, cpus := cpus.value, memory := memory.value, disk := disk.value
        user := trimmedField form.user
        network := some { mode := mode.value, forward := forward.value, tap := trimmedField form.tap, mac := mac.value }
        mounts := mounts.value
        cloudInit := form.cloudInitPatch }
  else .error errors

/-! ## Mounts are written as they are read -/

theorem splitText_of_pieces {c : Char} {pieces : List String} {s : String} (hs : s.toList = [c].intercalate (pieces.map String.toList))
    (hc : ∀ piece ∈ pieces, c ∉ piece.toList) (hne : pieces ≠ []) : splitText c s = pieces := by
  have hpieces : ∀ l ∈ pieces.map String.toList, c ∉ l := by
    intro l hl
    obtain ⟨piece, hpiece, rfl⟩ := List.mem_map.mp hl
    exact hc piece hpiece
  rw [splitText, hs, List.splitOn_intercalate c hpieces (by simpa using hne), List.map_map]
  simp [Function.comp_def]

theorem not_mem_of_mem_splitText {c : Char} {s piece : String} (h : piece ∈ splitText c s) : c ∉ piece.toList := by
  obtain ⟨l, hl, rfl⟩ := List.mem_map.mp h
  rw [String.toList_ofList]
  exact notMem_of_mem_splitOn hl

/-- A mount that the grammar accepts is written back in the grammar. -/
theorem parseMount_mountLine {value : String} {mount : MountSpec} (h : parseMount value = .ok mount) :
    parseMount (mountLine mount) = .ok mount := by
  rw [parseMount] at h
  split at h
  · next host guest access hsplit =>
    have hpiece : ∀ piece ∈ splitText ':' value, ':' ∉ piece.toList := fun piece => not_mem_of_mem_splitText
    rw [hsplit] at hpiece
    have hhost := hpiece host List.mem_cons_self
    have hguest := hpiece guest (List.mem_cons_of_mem _ List.mem_cons_self)
    split at h
    · cases h
    next hform =>
    rw [not_or, not_or] at hform
    obtain ⟨hhostne, hguestne, -⟩ := hform
    split at h
    · cases h
      have hline : splitText ':' (mountLine ⟨host, guest, false, none⟩) = [host, guest] := by
        refine splitText_of_pieces (by simp [mountLine]) ?_ (by simp)
        simp [hhost, hguest]
      rw [parseMount, hline]
      simp [hhostne, hguestne]
    · split at h
      · cases h
        have hline : splitText ':' (mountLine ⟨host, guest, true, none⟩) = [host, guest, "ro"] := by
          refine splitText_of_pieces (by simp [mountLine]) ?_ (by simp)
          simp [hhost, hguest]
        rw [parseMount, hline]
        simp [hhostne, hguestne]
      · cases h
  · cases h

/-! ## The fields of a rendered form -/

theorem insertError_ne_nil (field message : String) (errors : FieldErrors) : insertError field message errors ≠ [] := by
  cases errors with
  | nil => exact List.cons_ne_nil _ _
  | cons entry errors =>
    rw [insertError]
    split
    · exact List.cons_ne_nil _ _
    · split <;> exact List.cons_ne_nil _ _

theorem addError_eq_nil_iff {α : Type} {field : Field α} {errors : FieldErrors} :
    addError field errors = [] ↔ errors = [] ∧ field = .ok field.value := by
  cases field with
  | ok value => exact ⟨fun h => ⟨h, rfl⟩, And.left⟩
  | error error =>
    refine ⟨fun h => absurd h (insertError_ne_nil _ _ _), ?_⟩
    rintro ⟨-, h⟩
    cases h

theorem isWhitespace_toString {n : Nat} {c : Char} (hc : c ∈ (toString n).toList) : isWhitespace c = false := by
  rw [toList_toString] at hc
  exact isWhitespace_of_isDigit (isDigit_of_mem hc)

theorem toString_ne_empty (n : Nat) : toString n ≠ "" := by
  intro h
  have hnil := congrArg String.toList h
  rw [toList_toString] at hnil
  exact Nat.toDigits_ne_nil hnil

/-- The processors are read back, and none are refused. -/
theorem cpusField_toString (cpus : UInt8) :
    cpusField (toString cpus.toNat) = if cpus = 0 then .error ⟨"cpus", "cpus must be 1 through 255"⟩ else .ok (some cpus) := by
  have htrim : trim (toString cpus.toNat) = toString cpus.toNat := trim_eq_self fun c hc => isWhitespace_toString hc
  rw [cpusField, htrim, if_neg (toString_ne_empty _), toList_toString, fromStrRadix_toDigits cpus.toNat_lt]
  by_cases hz : cpus = 0
  · rw [hz]
    rfl
  · have hpos : 1 ≤ cpus.toNat := Nat.one_le_iff_ne_zero.mpr fun h => hz (UInt8.toNat_inj.mp h)
    rw [if_neg hz]
    simp only [hpos, if_true, UInt8.ofNat_toNat]

/-- A value whose text has no white space is read back from the field. -/
theorem parseInto_eq {α : Type} {raw : String} {value : α} {fromStr : String → Option α}
    (hspace : ∀ c ∈ raw.toList, isWhitespace c = false) (hne : raw ≠ "") (hvalue : fromStr raw = some value)
    (field message : String) : parseInto raw field message fromStr = .ok (some value) := by
  rw [parseInto, trim_eq_self hspace, if_neg hne, hvalue]

theorem isWhitespace_display {size : ByteSize} {c : Char} (hc : c ∈ size.display.toList) : isWhitespace c = false := by
  rw [ByteSize.display] at hc
  split at hc <;> rw [String.toList_append] at hc <;> rcases List.mem_append.mp hc with hc | hc
  case isTrue.inl | isFalse.inl => exact isWhitespace_toString hc
  case isTrue.inr | isFalse.inr =>
    obtain rfl := List.mem_singleton.mp hc
    decide

theorem parseInto_size {size : ByteSize} (h : size.Wf) (field : String) :
    parseInto size.display field sizeMessage ByteSize.fromStr = .ok (some size) := by
  refine parseInto_eq (fun c hc => isWhitespace_display hc) ?_ (ByteSize.fromStr_display h) field sizeMessage
  intro hnil
  rw [ByteSize.display] at hnil
  split at hnil <;> simp at hnil

theorem isWhitespace_hexByte {b : UInt8} {c : Char} (hc : c ∈ hexByte b) : isWhitespace c = false := by
  have hb := b.toNat_lt
  have hdigits : ∀ m < 16, isWhitespace (Nat.digitChar m) = false := by decide
  rw [hexByte, List.mem_cons, List.mem_singleton] at hc
  rcases hc with rfl | rfl
  · exact hdigits _ (by omega)
  · exact hdigits _ (Nat.mod_lt _ (by decide))

theorem parseInto_mac (mac : Option MacAddr) (field message : String) :
    parseInto ((mac.map MacAddr.display).getD "") field message MacAddr.fromStr = .ok mac := by
  cases mac with
  | none => rfl
  | some mac =>
    refine parseInto_eq ?_ ?_ (MacAddr.fromStr_display mac) field message
    · intro c hc
      change c ∈ mac.display.toList at hc
      rw [MacAddr.display, String.toList_ofList] at hc
      rcases mem_intercalate hc with hc | ⟨l, hl, hc⟩
      · rw [List.mem_singleton.mp hc]
        decide
      · obtain ⟨octet, -, rfl⟩ := List.mem_map.mp hl
        exact isWhitespace_hexByte hc
    · intro hnil
      have hread := MacAddr.fromStr_display mac
      rw [show mac.display = "" from hnil] at hread
      cases hread

theorem netModeField_token (mode : NetMode) : netModeField (netModeToken mode) = .ok (some mode) := by
  cases mode <;> decide

/-! ## Lists -/

/-- When nothing is wrong, as much is parsed as there are texts. -/
theorem parseAll_ne_nil {α ε : Type} {parse : String → Except ε α} {texts : List String} (hne : texts ≠ [])
    (hall : ∀ text ∈ texts, ∃ value, parse text = .ok value) : (parseAll parse texts).1 ≠ [] := by
  obtain ⟨text, rest, rfl⟩ := List.exists_cons_of_ne_nil hne
  obtain ⟨value, hvalue⟩ := hall text List.mem_cons_self
  simp [parseAll, hvalue, Except.toOption]

/-- A text without a wrong forward gives a forward unless it shows none. -/
theorem forwardField_value {forward : String} {value : Option (List PortForward)} (h : forwardField forward = .ok value) :
    (nonBlank (splitText ',' forward) = [] ∧ value = none) ∨ ∃ parsed, parsed ≠ [] ∧ value = some parsed := by
  rw [forwardField] at h
  simp only at h
  split at h
  · cases h
  · next hwrong =>
    cases h
    split
    · next hnil => exact .inl ⟨hnil, rfl⟩
    · next hne =>
      refine .inr ⟨_, parseAll_ne_nil hne fun text htext => ?_, rfl⟩
      rw [List.getLast?_eq_none_iff, parseAll, List.filterMap_eq_nil_iff] at hwrong
      have htext := hwrong text htext
      cases hparse : PortForward.fromStr text with
      | ok forward => exact ⟨forward, rfl⟩
      | error error => rw [hparse] at htext; cases htext

theorem mountsField_value {mounts : String} {value : Option (List MountSpec)} (h : mountsField mounts = .ok value) :
    (nonBlank (textLines mounts) = [] ∧ value = none) ∨ ∃ parsed, parsed ≠ [] ∧ value = some parsed := by
  rw [mountsField] at h
  simp only at h
  split at h
  · next hwrong =>
    cases h
    by_cases hnil : nonBlank (textLines mounts) = []
    · exact .inl ⟨hnil, by rw [hnil]; rfl⟩
    · have hparsed : (parseAll parseMount (nonBlank (textLines mounts))).1 ≠ [] := by
        refine parseAll_ne_nil hnil fun text htext => ?_
        obtain ⟨i, hi⟩ := List.mem_iff_getElem?.mp htext
        have hrow := List.filterMap_eq_nil_iff.mp hwrong (text, i) (List.mk_mem_zipIdx_iff_getElem?.mpr hi)
        cases hparse : parseMount text with
        | ok mount => exact ⟨mount, rfl⟩
        | error error => simp only [hparse] at hrow; cases hrow
      exact .inr ⟨_, hparsed, if_neg hparsed⟩
  · cases h

theorem colon_mem_display (forward : PortForward) : ':' ∈ forward.display.toList := by
  rw [PortForward.display, String.toList_append, String.toList_append]
  exact List.mem_append_left _ (List.mem_append_right _ (List.mem_singleton_self ':'))

theorem colon_mem_mountLine (mount : MountSpec) : ':' ∈ (mountLine mount).toList := by
  rw [mountLine, String.toList_append, String.toList_append, String.toList_append]
  exact List.mem_append_left _ (List.mem_append_left _ (List.mem_append_right _ (List.mem_singleton_self ':')))

/-- What the dialog makes of the forwards that it shows. -/
theorem forwardField_shown {forwards : List PortForward} {value : Option (List PortForward)}
    (h : forwardField (", ".intercalate (forwards.map PortForward.display)) = .ok value) :
    (forwards = [] ∧ value = none) ∨ ∃ parsed, parsed ≠ [] ∧ value = some parsed := by
  rcases forwardField_value h with ⟨hblank, hvalue⟩ | hparsed
  · cases forwards with
    | nil => exact .inl ⟨rfl, hvalue⟩
    | cons forward forwards =>
      have hcolon : ':' ∈ (", ".intercalate ((forward :: forwards).map PortForward.display)).toList :=
        mem_intercalate_text (List.mem_map_of_mem List.mem_cons_self) (colon_mem_display forward)
      exact absurd hblank (nonBlank_splitText_ne_nil hcolon (by decide) (by decide))
  · exact .inr hparsed

theorem mountsField_shown {mounts : List MountSpec} {value : Option (List MountSpec)}
    (h : mountsField ("\n".intercalate (mounts.map mountLine)) = .ok value) :
    (mounts = [] ∧ value = none) ∨ ∃ parsed, parsed ≠ [] ∧ value = some parsed := by
  rcases mountsField_value h with ⟨hblank, hvalue⟩ | hparsed
  · cases mounts with
    | nil => exact .inl ⟨rfl, hvalue⟩
    | cons mount mounts =>
      have hcolon : ':' ∈ ("\n".intercalate ((mount :: mounts).map mountLine)).toList :=
        mem_intercalate_text (List.mem_map_of_mem List.mem_cons_self) (colon_mem_mountLine mount)
      exact absurd (nonBlank_textLines.mp hblank) (trim_ne_empty hcolon (by decide))
  · exact .inr hparsed

/-! ## The patch of a rendered form -/

/-- The name that the user typed. -/
def CreateForm.withName (form : CreateForm) (name : String) : CreateForm := { form with name := name }

/-- The patch of the form that shows a spec, with what its two lists were parsed to. -/
def shownPatch (spec : MachineSpec) (forward : Option (List PortForward)) (mounts : Option (List MountSpec)) :
    MachineSpecPatch :=
  { image := some ⟨trim spec.image.text⟩, cpus := some spec.cpus, memory := some spec.memory, disk := some spec.disk
    user := trimmedField spec.user
    network := some
      { mode := some spec.network.mode, forward := forward, tap := spec.network.tap.bind trimmedField
        mac := spec.network.mac }
    mounts := mounts
    cloudInit := some
      { userDataInline := spec.cloudInit.userDataInline.bind userDataField
        sshAuthorizedKeys := keysField ("\n".intercalate spec.cloudInit.sshAuthorizedKeys)
        sshPwauth := some spec.cloudInit.sshPwauth, provisioning := some spec.cloudInit.provisioning } }

theorem trimmedField_getD (value : Option String) : trimmedField (value.getD "") = value.bind trimmedField := by
  cases value with
  | none => decide
  | some value => rfl

theorem cloudInitPatch_fromDefaults (spec : MachineSpec) (name : String) :
    ((CreateForm.fromDefaults spec).withName name).cloudInitPatch =
      some { userDataInline := spec.cloudInit.userDataInline.bind userDataField
             sshAuthorizedKeys := keysField ("\n".intercalate spec.cloudInit.sshAuthorizedKeys)
             sshPwauth := some spec.cloudInit.sshPwauth, provisioning := some spec.cloudInit.provisioning } := by
  have hbox : ∀ value, checkboxField "1" (checkbox value) = some value := by
    intro value
    cases value <;> decide
  have huser : userDataField (spec.cloudInit.userDataInline.getD "") = spec.cloudInit.userDataInline.bind userDataField := by
    cases spec.cloudInit.userDataInline with
    | none => decide
    | some userData => rw [Option.getD_some, Option.bind_some]
  have hgiven : ∀ patch : CloudInitSpecPatch, patch.provisioning = some spec.cloudInit.provisioning → patch ≠ {} := by
    rintro patch h rfl
    cases h
  simp only [CreateForm.cloudInitPatch, CreateForm.withName, CreateForm.fromDefaults, hbox, huser]
  exact if_neg (hgiven _ rfl)

/-- A form is accepted when each of its fields is. -/
theorem toPatch_ok_iff {form : CreateForm} {patch : MachineSpecPatch} :
    form.toPatch = .ok patch ↔ ∃ name image cpus memory disk mode forward mac mounts,
      nameField form.name = .ok name ∧ imageField form.image = .ok image ∧ cpusField form.cpus = .ok cpus ∧
      parseInto form.memory "memory" sizeMessage ByteSize.fromStr = .ok memory ∧
      parseInto form.disk "disk" sizeMessage ByteSize.fromStr = .ok disk ∧ netModeField form.netMode = .ok mode ∧
      forwardField form.forward = .ok forward ∧
      parseInto form.mac "mac" (trim form.mac ++ ": expected six hexadecimal octets such as 52:54:00:9a:1f:c3")
        MacAddr.fromStr = .ok mac ∧
      mountsField form.mounts = .ok mounts ∧
      patch =
        { image := image, cpus := cpus, memory := memory, disk := disk, user := trimmedField form.user
          network := some { mode := mode, forward := forward, tap := trimmedField form.tap, mac := mac }
          mounts := mounts, cloudInit := form.cloudInitPatch } := by
  rw [CreateForm.toPatch]
  constructor
  · intro h
    split at h
    · next hnil =>
      simp only [addError_eq_nil_iff, true_and] at hnil
      obtain ⟨⟨⟨⟨⟨⟨⟨⟨hname, himage⟩, hcpus⟩, hmemory⟩, hdisk⟩, hmode⟩, hforward⟩, hmac⟩, hmounts⟩ := hnil
      exact ⟨_, _, _, _, _, _, _, _, _, hname, himage, hcpus, hmemory, hdisk, hmode, hforward, hmac, hmounts,
        (Except.ok.inj h).symm⟩
    · cases h
  · rintro ⟨name, image, cpus, memory, disk, mode, forward, mac, mounts, hname, himage, hcpus, hmemory, hdisk, hmode,
      hforward, hmac, hmounts, rfl⟩
    simp only [hname, himage, hcpus, hmemory, hdisk, hmode, hforward, hmac, hmounts, addError, if_true, Field.value]

theorem nameField_ok_iff {name : String} {value : Option Unit} : nameField name = .ok value ↔ trim name ≠ "" ∧ value = none := by
  rw [nameField]
  split
  · next h => simp [h]
  · next h => simp [h, eq_comm]

theorem imageField_ok_iff {image : String} {value : Option ImageRef} :
    imageField image = .ok value ↔ trim image ≠ "" ∧ value = some ⟨trim image⟩ := by
  rw [imageField]
  split
  · next h => simp [h]
  · next h => simp [h, eq_comm]

/-- The form as it was rendered is accepted when its image and its processors are, and its lists are. -/
theorem toPatch_fromDefaults {spec : MachineSpec} (hmemory : spec.memory.Wf) (hdisk : spec.disk.Wf) {name : String}
    {patch : MachineSpecPatch} :
    ((CreateForm.fromDefaults spec).withName name).toPatch = .ok patch ↔
      trim name ≠ "" ∧ trim spec.image.text ≠ "" ∧ spec.cpus ≠ 0 ∧
      ∃ forward mounts, forwardField (", ".intercalate (spec.network.forward.map PortForward.display)) = .ok forward ∧
        mountsField ("\n".intercalate (spec.mounts.map mountLine)) = .ok mounts ∧ patch = shownPatch spec forward mounts := by
  have hcpus := cpusField_toString spec.cpus
  rw [toPatch_ok_iff, cloudInitPatch_fromDefaults spec name]
  simp only [CreateForm.withName, CreateForm.fromDefaults, parseInto_size hmemory, parseInto_size hdisk, parseInto_mac,
    netModeField_token, trimmedField_getD, nameField_ok_iff, imageField_ok_iff]
  constructor
  · rintro ⟨_, _, cpus, _, _, _, forward, _, mounts, ⟨hname, rfl⟩, ⟨himage, rfl⟩, hcpusOk, ⟨⟩, ⟨⟩, ⟨⟩, hforward, ⟨⟩,
      hmounts, rfl⟩
    rw [hcpus] at hcpusOk
    split at hcpusOk
    · cases hcpusOk
    · next hzero =>
      cases hcpusOk
      exact ⟨hname, himage, hzero, forward, mounts, hforward, hmounts, rfl⟩
  · rintro ⟨hname, himage, hzero, forward, mounts, hforward, hmounts, rfl⟩
    rw [if_neg hzero] at hcpus
    exact ⟨_, _, _, _, _, _, _, _, _, ⟨hname, rfl⟩, ⟨himage, rfl⟩, hcpus, rfl, rfl, rfl, hforward, rfl, hmounts, rfl⟩

/-! ## What the dialog creates -/

/-- Global defaults that a configuration can hold: they pass the check of a layer, and their sizes are whole MiB. -/
structure ValidDefaults (defaults : MachineSpecPatch) : Prop where
  valid : defaults.validate = .ok ()
  memory : ∀ size ∈ defaults.memory, size.Wf
  disk : ∀ size ∈ defaults.disk, size.Wf

/-- The spec without the tags of its mounts, which the grammar of the form does not have. -/
def untagged (spec : MachineSpec) : MachineSpec :=
  { spec with mounts := spec.mounts.map fun mount => { mount with tag := none } }

/-- The dialog is submitted as it was rendered, and creates the spec that it shows. -/
def CreatesWhatItShows (defaults : MachineSpecPatch) (name : String) : Prop :=
  ∃ shown patch created, MachineSpec.fromLayers defaults {} {} = .ok shown ∧
    ((CreateForm.fromDefaults shown).withName name).toPatch = .ok patch ∧
    MachineSpec.fromLayers defaults {} patch = .ok created ∧ untagged created = untagged shown

/-- The spec has no lists that the dialog shows, and its texts are their own trimmings. -/
structure ShownExactly (spec : MachineSpec) : Prop where
  image : trim spec.image.text = spec.image.text ∧ spec.image.text ≠ ""
  cpus : spec.cpus ≠ 0
  user : trim spec.user = "" ∨ trim spec.user = spec.user
  forward : spec.network.forward = []
  tap : ∀ tap ∈ spec.network.tap, trim tap = "" ∨ trim tap = tap
  mounts : spec.mounts = []
  userData : ∀ userData ∈ spec.cloudInit.userDataInline,
    trim (String.ofList (replaceCrlf userData.toList)) = "" ∨ String.ofList (replaceCrlf userData.toList) = userData
  keys : ∀ key ∈ spec.cloudInit.sshAuthorizedKeys, trim key = ""

theorem fromLayers_patch {defaults patch : MachineSpecPatch} {shown : MachineSpec}
    (h : MachineSpec.fromLayers defaults {} {} = .ok shown) :
    MachineSpec.fromLayers defaults {} patch = patch.applyToWithVectors shown .append := by
  unfold MachineSpec.fromLayers at h ⊢
  cases hspec : defaults.applyToWithVectors {} .append with
  | error e => rw [hspec] at h; cases h
  | ok spec =>
    rw [hspec] at h
    obtain rfl : spec = shown := Except.ok.inj h
    rfl

/-- The patch of a rendered form appends to the lists and writes the trimmed texts. -/
theorem applyToWithVectors_shownPatch (spec : MachineSpec) (forward : Option (List PortForward))
    (mounts : Option (List MountSpec)) :
    (shownPatch spec forward mounts).applyToWithVectors spec .append = .ok
      { spec with
        image := ⟨trim spec.image.text⟩
        user := (trimmedField spec.user).getD spec.user
        network := { spec.network with
          forward := mergeVector spec.network.forward forward .append
          tap := (spec.network.tap.bind trimmedField).or spec.network.tap }
        mounts := mergeVector spec.mounts mounts .append
        cloudInit := { spec.cloudInit with
          userDataInline := (spec.cloudInit.userDataInline.bind userDataField).or spec.cloudInit.userDataInline
          sshAuthorizedKeys := mergeVector spec.cloudInit.sshAuthorizedKeys
            (keysField ("\n".intercalate spec.cloudInit.sshAuthorizedKeys)) .append } } := by
  obtain ⟨image, arch, cpus, cpusMax, memory, memoryMax, disk, user, ⟨mode, forwards, tap, mac⟩, shared, cloudInit, vmm⟩ := spec
  -- a MAC that is shown is set again
  cases mac <;> rfl

theorem trimmedField_getD_eq_iff {value : String} :
    (trimmedField value).getD value = value ↔ trim value = "" ∨ trim value = value := by
  rw [trimmedField]
  split
  · next h => simp [h]
  · next h => simp [h]

/-- An optional text that is sent again. -/
theorem bind_or_eq_iff {field : String → Option String} {blank : String → Prop} [DecidablePred blank] {sent : String → String}
    (hfield : ∀ s, field s = if blank s then none else some (sent s)) (value : Option String) :
    (value.bind field).or value = value ↔ ∀ s ∈ value, blank s ∨ sent s = s := by
  cases value with
  | none => simp
  | some s =>
    rw [Option.bind_some, hfield]
    split
    · next h => simp [h]
    · next h => simp [h]

theorem tap_shown_iff (tap : Option String) :
    (tap.bind trimmedField).or tap = tap ↔ ∀ s ∈ tap, trim s = "" ∨ trim s = s :=
  bind_or_eq_iff (fun s => by rw [trimmedField]) tap

theorem userData_shown_iff (userData : Option String) :
    (userData.bind userDataField).or userData = userData ↔
      ∀ s ∈ userData, trim (String.ofList (replaceCrlf s.toList)) = "" ∨ String.ofList (replaceCrlf s.toList) = s :=
  bind_or_eq_iff (fun s => by simp only [userDataField]) userData

/-- A list that is appended to is the same list only when nothing is appended. -/
theorem mergeVector_append_eq_iff {α : Type} {old : List α} {values : Option (List α)} :
    mergeVector old values .append = old ↔ values = none ∨ values = some [] := by
  cases values with
  | none => simp [mergeVector]
  | some values => simp [mergeVector]

theorem keysField_eq {keys : List String} :
    (keysField ("\n".intercalate keys) = none ∨ keysField ("\n".intercalate keys) = some []) ↔
      ∀ key ∈ keys, trim key = "" := by
  have hblank : nonBlank (textLines ("\n".intercalate keys)) = [] ↔ ∀ key ∈ keys, trim key = "" := by
    rw [nonBlank_textLines, trim_intercalate_eq_empty_iff (by decide)]
  rw [keysField, ← hblank]
  split
  · next h => simp [h]
  · next h => simp [h]

/-- What the patch of a rendered form makes of the spec is what was shown exactly when it was shown exactly. -/
theorem untagged_shownPatch_iff {spec created : MachineSpec} {forward : Option (List PortForward)}
    {mounts : Option (List MountSpec)} (hcreated : (shownPatch spec forward mounts).applyToWithVectors spec .append = .ok created) :
    untagged created = untagged spec ↔
      trim spec.image.text = spec.image.text ∧ (trim spec.user = "" ∨ trim spec.user = spec.user) ∧
      (forward = none ∨ forward = some []) ∧ (∀ tap ∈ spec.network.tap, trim tap = "" ∨ trim tap = tap) ∧
      (mounts = none ∨ mounts = some []) ∧
      (∀ userData ∈ spec.cloudInit.userDataInline,
        trim (String.ofList (replaceCrlf userData.toList)) = "" ∨ String.ofList (replaceCrlf userData.toList) = userData) ∧
      ∀ key ∈ spec.cloudInit.sshAuthorizedKeys, trim key = "" := by
  rw [applyToWithVectors_shownPatch] at hcreated
  obtain rfl := Except.ok.inj hcreated
  have hmounts : ((mergeVector spec.mounts mounts .append).map fun mount => { mount with tag := none }) =
      (spec.mounts.map fun mount => { mount with tag := none }) ↔ mounts = none ∨ mounts = some [] := by
    cases mounts with
    | none => simp [mergeVector]
    | some mounts => simp [mergeVector]
  constructor
  · intro h
    have himage := congrArg (·.image.text) h
    have huser := congrArg (·.user) h
    have hforward := congrArg (·.network.forward) h
    have htap := congrArg (·.network.tap) h
    have hshared := congrArg (·.mounts) h
    have huserData := congrArg (·.cloudInit.userDataInline) h
    have hkeys := congrArg (·.cloudInit.sshAuthorizedKeys) h
    exact ⟨himage, trimmedField_getD_eq_iff.mp huser, mergeVector_append_eq_iff.mp hforward, (tap_shown_iff _).mp htap,
      hmounts.mp hshared, (userData_shown_iff _).mp huserData, keysField_eq.mp (mergeVector_append_eq_iff.mp hkeys)⟩
  · rintro ⟨himage, huser, hforward, htap, hshared, huserData, hkeys⟩
    simp only [untagged, himage, trimmedField_getD_eq_iff.mpr huser, mergeVector_append_eq_iff.mpr hforward,
      (tap_shown_iff _).mpr htap, hmounts.mpr hshared, (userData_shown_iff _).mpr huserData,
      mergeVector_append_eq_iff.mpr (keysField_eq.mpr hkeys)]

theorem Wf_fromLayers {defaults : MachineSpecPatch} {shown : MachineSpec} (hvalid : ValidDefaults defaults)
    (hshown : MachineSpec.fromLayers defaults {} {} = .ok shown) : shown.memory.Wf ∧ shown.disk.Wf := by
  have hspec : defaults.applyToWithVectors {} .append = .ok shown := by
    rw [MachineSpec.fromLayers] at hshown
    obtain ⟨spec, hspec, hrest⟩ := Res.bind_ok hshown
    rw [hspec, show spec = shown from Except.ok.inj hrest]
  rw [MachineSpecPatch.applyToWithVectors, hvalid.valid] at hspec
  have happlied := MachineSpecPatch.applied_applySets hvalid.valid {}
  rw [Except.ok.inj hspec] at happlied
  rw [happlied.memory, happlied.disk]
  constructor
  · cases hmemory : defaults.memory with
    | none => rfl
    | some size => exact hvalid.memory size hmemory
  · cases hdisk : defaults.disk with
    | none => rfl
    | some size => exact hvalid.disk size hdisk

theorem createsWhatItShows_iff {defaults : MachineSpecPatch} {shown : MachineSpec} (hvalid : ValidDefaults defaults)
    (hshown : MachineSpec.fromLayers defaults {} {} = .ok shown) (name : String) :
    CreatesWhatItShows defaults name ↔ trim name ≠ "" ∧ ShownExactly shown := by
  obtain ⟨hmemory, hdisk⟩ := Wf_fromLayers hvalid hshown
  constructor
  · rintro ⟨shown', patch, created, hshown', hpatch, hcreated, hsame⟩
    obtain rfl : shown = shown' := Except.ok.inj (hshown.symm.trans hshown')
    obtain ⟨hname, himage, hcpus, forward, mounts, hforward, hmounts, rfl⟩ := (toPatch_fromDefaults hmemory hdisk).mp hpatch
    rw [fromLayers_patch hshown] at hcreated
    obtain ⟨htrim, huser, hnone, htap, hshared, huserData, hkeys⟩ := (untagged_shownPatch_iff hcreated).mp hsame
    refine ⟨hname, ⟨htrim, htrim ▸ himage⟩, hcpus, huser, ?_, htap, ?_, huserData, hkeys⟩
    · rcases forwardField_shown hforward with ⟨hnil, -⟩ | ⟨parsed, hparsed, rfl⟩
      · exact hnil
      · rcases hnone with hnone | hnone
        · cases hnone
        · exact absurd (Option.some.inj hnone) hparsed
    · rcases mountsField_shown hmounts with ⟨hnil, -⟩ | ⟨parsed, hparsed, rfl⟩
      · exact hnil
      · rcases hshared with hshared | hshared
        · cases hshared
        · exact absurd (Option.some.inj hshared) hparsed
  · rintro ⟨hname, hexact⟩
    have hforward : forwardField (", ".intercalate (shown.network.forward.map PortForward.display)) = .ok none := by
      rw [hexact.forward]
      decide
    have hmounts : mountsField ("\n".intercalate (shown.mounts.map mountLine)) = .ok none := by
      rw [hexact.mounts]
      decide
    have himage : trim shown.image.text ≠ "" := fun h => hexact.image.2 (hexact.image.1.symm.trans h)
    have hpatch := (toPatch_fromDefaults hmemory hdisk).mpr
      ⟨hname, himage, hexact.cpus, none, none, hforward, hmounts, rfl⟩
    have hcreated := applyToWithVectors_shownPatch shown none none
    refine ⟨shown, _, _, hshown, hpatch, (fromLayers_patch hshown).trans hcreated, ?_⟩
    exact (untagged_shownPatch_iff hcreated).mpr ⟨hexact.image.1, hexact.user, .inl rfl, hexact.tap, .inl rfl,
      hexact.userData, hexact.keys⟩

/-- **The create dialog creates what it shows** exactly when it shows no forwards, no mounts and no keys, one processor at least,
and texts that are their own trimmings; a mount that the grammar accepts is always written as it is read. -/
theorem create_dialog_exact {defaults : MachineSpecPatch} {shown : MachineSpec} (hvalid : ValidDefaults defaults)
    (hshown : MachineSpec.fromLayers defaults {} {} = .ok shown) (name : String) :
    (CreatesWhatItShows defaults name ↔ trim name ≠ "" ∧ ShownExactly shown) ∧
    ∀ value mount, parseMount value = .ok mount → parseMount (mountLine mount) = .ok mount :=
  ⟨createsWhatItShows_iff hvalid hshown name, fun _ _ => parseMount_mountLine⟩

/-- Without configured defaults the dialog shows the built-in spec and creates it. -/
theorem create_dialog_builtin : CreatesWhatItShows {} "web" := by
  have hvalid : ValidDefaults {} := ⟨rfl, by rintro size ⟨⟩, by rintro size ⟨⟩⟩
  have hshown : MachineSpec.fromLayers {} {} {} = .ok {} := rfl
  refine (create_dialog_exact hvalid hshown "web").1.mpr ⟨by decide, ?_⟩
  constructor
  case image => decide
  case cpus => decide
  case user => exact .inr (by decide)
  case forward | mounts => rfl
  case tap => rintro tap ⟨⟩
  case userData => rintro userData ⟨⟩
  case keys => exact fun key h => absurd h List.not_mem_nil

def webForward : PortForward where
  protocol := .tcp
  bind := none
  host := ⟨8080, 8080, by decide, by decide, by decide⟩
  guest := ⟨80, 80, by decide, by decide, by decide⟩
  len_eq := by decide

/-- Defaults that forward port 8080 to port 80. -/
def forwardingDefaults : MachineSpecPatch := { network := some { forward := some [webForward] } }

/-- The forward of the defaults is created twice. -/
theorem create_dialog_forward : ¬ CreatesWhatItShows forwardingDefaults "web" := by
  have hvalid : ValidDefaults forwardingDefaults := ⟨rfl, by rintro size ⟨⟩, by rintro size ⟨⟩⟩
  have hshown : MachineSpec.fromLayers forwardingDefaults {} {} = .ok { network := { forward := [webForward] } } := rfl
  rw [createsWhatItShows_iff hvalid hshown]
  rintro ⟨-, hexact⟩
  cases hexact.forward

end Firestone.Ui
