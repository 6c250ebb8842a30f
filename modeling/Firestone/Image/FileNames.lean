import Firestone.Error
import Mathlib.Data.List.Basic
import Mathlib.Data.List.Infix
import Mathlib.Data.Nat.Digits.Defs
import Mathlib.Tactic.Common

/-!
# File names of the images directory

Recovery learns from the names alone which operation was interrupted. An operation names its files in two ways: the
partials of a pull after the hash of the source, the files of an image after its stable id.

* `artifactName`, `partialName` — the names that operations create.
* `removalIdFromName`, `isKnownPartialName`, `imageArtifactFromName` — what recovery reads back from a name.
* `artifactName_inj`, `partialName_ne_artifactName` — the names do not clash.
-/

namespace Firestone.Image

/-- A file name, by its characters. -/
abbrev Name := List Char

/-! ## Stable ids -/

def isLowerHex (value : Name) (length : Nat) : Bool :=
  value.length = length && value.all fun c => c.isDigit || ('a' ≤ c && c ≤ 'f')

def imageIdPrefix : Name := "image-".toList

def invalidImageId (id : Name) : FirestoneError :=
  (FirestoneError.new .invalidSpec s!"invalid image id '{String.ofList id}'").withHint
    "use the complete stable id shown by `firestone images ls`"

def validateImageId (id : Name) : Res Unit :=
  match id.dropPrefix? imageIdPrefix with
  | none => .error (invalidImageId id)
  | some digest => if isLowerHex digest 64 then .ok () else .error (invalidImageId id)

/-- The ids `validate_image_id` accepts. -/
def ImageId := { id : Name // validateImageId id = .ok () }

/-- The hash that names the partials of a pull. -/
def OperationKey := { key : Name // isLowerHex key 64 = true }

/-! ## The names operations create -/

/-- The files of one image. -/
inductive Artifact
  | base | sidecar | sidecarTemp | baseRemoval | sidecarRemoval
  deriving DecidableEq, Repr

def Artifact.suffix : Artifact → Name
  | .base => ".qcow2".toList
  | .sidecar => ".json".toList
  | .sidecarTemp => ".json.tmp".toList
  | .baseRemoval => ".qcow2.removing".toList
  | .sidecarRemoval => ".json.removing".toList

def artifactName (id : Name) (a : Artifact) : Name := id ++ a.suffix

/-- The staged files of one pull. -/
inductive Part
  | source | stored | tar
  | layer (index : Nat)
  deriving DecidableEq, Repr

def Part.suffix : Part → Name
  | .source => ".source.partial".toList
  | .stored => ".stored.partial".toList
  | .tar => ".tar.partial".toList
  | .layer index => ".layer".toList ++ Nat.toDigits 10 index ++ ".partial".toList

def partialName (operation : Name) (p : Part) : Name := ".pull-".toList ++ operation ++ p.suffix

/-! ## Reading names back -/

/-- The text before and after the last occurrence of `sep`. -/
@[grind =] def rsplitOnce (sep : Name) : Name → Option (Name × Name)
  | [] => ([].dropPrefix? sep).map fun after => ([], after)
  | c :: rest =>
    match rsplitOnce sep rest with
    | some (before, after) => some (c :: before, after)
    | none => ((c :: rest).dropPrefix? sep).map fun after => ([], after)

def removalIdFromName (name : Name) : Option Name :=
  ((name.dropSuffix? ".qcow2.removing".toList).or (name.dropSuffix? ".json.removing".toList)).filter fun id =>
    (validateImageId id).isOk

/-- The key in the name of a layer partial. -/
def layerKey (rest : Name) : Option Name := do
  let body ← rest.dropSuffix? ".partial".toList
  let (digest, index) ← rsplitOnce ".layer".toList body
  if !index.isEmpty && index.all Char.isDigit then some digest else none

def isKnownPartialName (name : Name) : Bool :=
  match name.dropPrefix? ".pull-".toList with
  | none => false
  | some rest =>
    let digest := (((rest.dropSuffix? ".source.partial".toList).or (rest.dropSuffix? ".stored.partial".toList)).or
      (rest.dropSuffix? ".tar.partial".toList)).or (layerKey rest)
    digest.any (isLowerHex · 64)

/-- The files `recover_incomplete_pairs` distinguishes. -/
inductive ImageArtifact
  | base | sidecar | sidecarTemp
  deriving DecidableEq, Repr

def imageArtifactFromName (name : Name) : Res (Option (Name × ImageArtifact)) :=
  let parsed := (((name.dropSuffix? ".json.tmp".toList).map (·, ImageArtifact.sidecarTemp)).or
    ((name.dropSuffix? ".json".toList).map (·, ImageArtifact.sidecar))).or
    ((name.dropSuffix? ".qcow2".toList).map (·, ImageArtifact.base))
  match parsed with
  | none => .ok none
  | some (id, artifact) =>
    match validateImageId id with
    | .error _ =>
      .error ((FirestoneError.new .dependency
        s!"images directory contains invalid image artifact name '{String.ofList name}'").withHint
        "move the malformed image artifact out of the images directory")
    | .ok () => .ok (some (id, artifact))

/-! ## Names do not clash -/

section names

variable {id id' key l s s' : Name} {a a' : Artifact} {p : Part}

theorem validateImageId_ok (h : validateImageId id = .ok ()) :
    ∃ digest, id = imageIdPrefix ++ digest ∧ digest.length = 64 := by
  unfold validateImageId at h
  split at h
  · cases h
  · rename_i digest hd
    split at h
    · rename_i hhex
      obtain ⟨pre, rfl, hpre⟩ := List.dropPrefix?_eq_some_iff.mp hd
      simp only [isLowerHex, Bool.and_eq_true, decide_eq_true_eq] at hhex
      exact ⟨digest, by rw [eq_of_beq hpre], hhex.1⟩
    · cases h

theorem length_of_valid (h : validateImageId id = .ok ()) : id.length = 70 := by
  obtain ⟨digest, rfl, hlen⟩ := validateImageId_ok h
  rw [List.length_append, hlen]
  rfl

theorem Artifact.suffix_inj (h : a.suffix = a'.suffix) : a = a' := by
  cases a <;> cases a' <;> first | rfl | (revert h; decide)

theorem artifactName_inj (hid : validateImageId id = .ok ()) (hid' : validateImageId id' = .ok ())
    (h : artifactName id a = artifactName id' a') : id = id' ∧ a = a' := by
  have hlen : id.length = id'.length := (length_of_valid hid).trans (length_of_valid hid').symm
  obtain ⟨hids, hsuf⟩ := List.append_inj h hlen
  exact ⟨hids, Artifact.suffix_inj hsuf⟩

theorem head_artifactName (hid : validateImageId id = .ok ()) : (artifactName id a).head? = some 'i' := by
  obtain ⟨digest, rfl, -⟩ := validateImageId_ok hid
  rfl

theorem head_partialName : (partialName key p).head? = some '.' := rfl

theorem partialName_ne_artifactName (hid : validateImageId id = .ok ()) : partialName key p ≠ artifactName id a := by
  intro h
  have hheads := congrArg List.head? h
  rw [head_artifactName hid, head_partialName] at hheads
  exact absurd hheads (by decide)

end names

/-! ## What recovery reads back -/

section classify

variable {id key l s s' : Name}

theorem dropSuffix?_append : (l ++ s).dropSuffix? s = some l :=
  List.dropSuffix?_eq_some_iff.mpr ⟨s, rfl, BEq.rfl⟩

theorem eq_of_dropSuffix? (h : l.dropSuffix? s = some id) : l = id ++ s := by
  obtain ⟨suf, rfl, hsuf⟩ := List.dropSuffix?_eq_some_iff.mp h
  rw [eq_of_beq hsuf]

/-- A text that ends in one word does not end in another, unless one of the two ends in the other. -/
theorem dropSuffix?_append_ne (h : ¬ s <:+ s') (h' : ¬ s' <:+ s) : (l ++ s').dropSuffix? s = none := by
  rw [Option.eq_none_iff_forall_ne_some]
  intro r hr
  have hs : s <:+ l ++ s' := ⟨r, (eq_of_dropSuffix? hr).symm⟩
  rcases List.suffix_or_suffix_of_suffix hs (List.suffix_append l s') with hc | hc
  · exact h hc
  · exact h' hc

theorem dropPrefix?_append : (s ++ l).dropPrefix? s = some l :=
  List.dropPrefix?_eq_some_iff.mpr ⟨s, rfl, BEq.rfl⟩

section split

variable {c : Char} {w : Name}

theorem rsplitOnce_none (h : c ∉ l) : rsplitOnce (c :: w) l = none := by
  induction l with
  | nil => rfl
  | cons d rest ih =>
    rw [List.mem_cons, not_or] at h
    have hd : (d :: rest).dropPrefix? (c :: w) = none := by
      rw [Option.eq_none_iff_forall_ne_some]
      intro r hr
      obtain ⟨pre, hpre, heq⟩ := List.dropPrefix?_eq_some_iff.mp hr
      rw [eq_of_beq heq] at hpre
      exact h.1 (List.cons.inj hpre).1.symm
    rw [rsplitOnce, ih h.2, hd]
    rfl

/-- The last occurrence of a word is the one whose first letter does not come again. -/
theorem rsplitOnce_append (hw : c ∉ w) (h : c ∉ s) : rsplitOnce (c :: w) (l ++ (c :: w ++ s)) = some (l, s) := by
  induction l with
  | nil =>
    have hrest : rsplitOnce (c :: w) (w ++ s) = none := by
      refine rsplitOnce_none ?_
      rw [List.mem_append, not_or]
      exact ⟨hw, h⟩
    rw [List.nil_append, List.cons_append, rsplitOnce, hrest, ← List.cons_append, dropPrefix?_append]
    rfl
  | cons d rest ih => rw [List.cons_append, rsplitOnce, ih]

end split

theorem isDigit_of_mem_toDigits {n : Nat} {c : Char} (h : c ∈ Nat.toDigits 10 n) : c.isDigit = true :=
  Nat.isDigit_of_mem_toDigits (by decide) (by decide) h

theorem layerKey_append {digits : Name} (hne : digits ≠ []) (hdigits : ∀ c ∈ digits, c.isDigit = true) :
    layerKey (key ++ (".layer".toList ++ digits ++ ".partial".toList)) = some key := by
  have hdot : '.' ∉ digits := fun h => absurd (hdigits _ h) (by decide)
  have hsplit : rsplitOnce ".layer".toList (key ++ (".layer".toList ++ digits)) = some (key, digits) :=
    rsplitOnce_append (by decide) hdot
  have hindex : (!digits.isEmpty && digits.all Char.isDigit) = true := by
    rw [Bool.and_eq_true, Bool.not_eq_true', List.isEmpty_eq_false_iff, List.all_eq_true]
    exact ⟨hne, hdigits⟩
  rw [← List.append_assoc, layerKey, dropSuffix?_append, Option.bind_eq_bind, Option.bind_some, hsplit,
    Option.bind_eq_bind, Option.bind_some]
  exact if_pos hindex

/-- The key that `is_known_partial_name` finds in a name, after `.pull-`. -/
theorem isKnownPartialName_append {rest : Name} :
    isKnownPartialName (".pull-".toList ++ rest) =
      ((((rest.dropSuffix? ".source.partial".toList).or (rest.dropSuffix? ".stored.partial".toList)).or
        (rest.dropSuffix? ".tar.partial".toList)).or (layerKey rest)).any (isLowerHex · 64) := by
  unfold isKnownPartialName
  rw [dropPrefix?_append]

/-- A layer partial ends in none of the fixed suffixes: the letter before `.partial` is a digit there. -/
theorem dropSuffix?_layer {digits w : Name} (t : Name) (c : Char) (hw : w = t ++ [c] ++ ".partial".toList)
    (hc : c.isDigit = false) (hne : digits ≠ []) (hdigits : ∀ c ∈ digits, c.isDigit = true) :
    (key ++ (".layer".toList ++ digits ++ ".partial".toList)).dropSuffix? w = none := by
  rw [Option.eq_none_iff_forall_ne_some]
  intro r hr
  have heq := eq_of_dropSuffix? hr
  have hlast : key ++ ".layer".toList ++ digits = r ++ t ++ [c] := by
    refine (List.append_left_inj ".partial".toList).mp ?_
    rw [hw] at heq
    simpa only [List.append_assoc] using heq
  have hmem := congrArg List.getLast? hlast
  rw [List.getLast?_append_of_ne_nil _ hne, List.getLast?_concat] at hmem
  have hdigit := hdigits c (List.mem_of_getLast? hmem)
  rw [hc] at hdigit
  cases hdigit

/-- **Every partial a pull creates is known** to recovery. -/
theorem isKnownPartialName_partialName (hkey : isLowerHex key 64 = true) (p : Part) :
    isKnownPartialName (partialName key p) = true := by
  unfold partialName
  rw [List.append_assoc, isKnownPartialName_append]
  cases p with
  | source =>
    have hs : Part.source.suffix = ".source.partial".toList := rfl
    rw [hs, dropSuffix?_append]
    exact hkey
  | stored =>
    have hs : Part.stored.suffix = ".stored.partial".toList := rfl
    rw [hs, dropSuffix?_append_ne (by decide) (by decide), dropSuffix?_append]
    exact hkey
  | tar =>
    have hs : Part.tar.suffix = ".tar.partial".toList := rfl
    rw [hs, dropSuffix?_append_ne (by decide) (by decide), dropSuffix?_append_ne (by decide) (by decide),
      dropSuffix?_append]
    exact hkey
  | layer index =>
    have hs : (Part.layer index).suffix = ".layer".toList ++ Nat.toDigits 10 index ++ ".partial".toList := rfl
    have hne : Nat.toDigits 10 index ≠ [] := Nat.toDigits_ne_nil
    have hdigits : ∀ c ∈ Nat.toDigits 10 index, c.isDigit = true := fun _ => isDigit_of_mem_toDigits
    rw [hs, dropSuffix?_layer ".sourc".toList 'e' (by decide) rfl hne hdigits,
      dropSuffix?_layer ".store".toList 'd' (by decide) rfl hne hdigits,
      dropSuffix?_layer ".ta".toList 'r' (by decide) rfl hne hdigits, layerKey_append hne hdigits]
    exact hkey

theorem head_of_isKnownPartialName {name : Name} (h : isKnownPartialName name = true) : name.head? = some '.' := by
  unfold isKnownPartialName at h
  split at h
  · cases h
  · rename_i rest hrest
    obtain ⟨pre, rfl, hpre⟩ := List.dropPrefix?_eq_some_iff.mp hrest
    rw [eq_of_beq hpre]
    rfl

/-- The file of an image is not taken for a partial. -/
theorem isKnownPartialName_artifactName (hid : validateImageId id = .ok ()) (a : Artifact) :
    isKnownPartialName (artifactName id a) = false := by
  rw [← Bool.not_eq_true]
  intro h
  have hhead := head_of_isKnownPartialName h
  rw [head_artifactName hid] at hhead
  exact absurd hhead (by decide)

def Artifact.isRemoval : Artifact → Bool
  | .baseRemoval | .sidecarRemoval => true
  | _ => false

theorem removalIdFromName_artifactName (hid : validateImageId id = .ok ()) {a : Artifact} (ha : a.isRemoval = true) :
    removalIdFromName (artifactName id a) = some id := by
  have hok : (validateImageId id).isOk = true := by rw [hid]; rfl
  rw [removalIdFromName, artifactName]
  cases a with
  | baseRemoval =>
    have hs : Artifact.baseRemoval.suffix = ".qcow2.removing".toList := rfl
    rw [hs, dropSuffix?_append, Option.some_or]
    exact Option.filter_some_pos hok
  | sidecarRemoval =>
    have hs : Artifact.sidecarRemoval.suffix = ".json.removing".toList := rfl
    rw [hs, dropSuffix?_append_ne (by decide) (by decide), dropSuffix?_append, Option.none_or]
    exact Option.filter_some_pos hok
  | _ => cases ha

/-- An id read back from a tombstone is the id of that tombstone. -/
theorem removalIdFromName_some {name : Name} (h : removalIdFromName name = some id) :
    validateImageId id = .ok () ∧ ∃ a : Artifact, a.isRemoval = true ∧ name = artifactName id a := by
  rw [removalIdFromName, Option.filter_eq_some_iff] at h
  obtain ⟨hor, hok⟩ := h
  refine ⟨?_, ?_⟩
  · obtain ⟨⟨⟩, h⟩ := Res.exists_ok hok
    exact h
  · rcases Option.or_eq_some_iff.mp hor with hbase | ⟨-, hside⟩
    · exact ⟨.baseRemoval, rfl, eq_of_dropSuffix? hbase⟩
    · exact ⟨.sidecarRemoval, rfl, eq_of_dropSuffix? hside⟩

/-- The file that `recover_incomplete_pairs` looks for. -/
def ImageArtifact.artifact : ImageArtifact → Artifact
  | .base => .base
  | .sidecar => .sidecar
  | .sidecarTemp => .sidecarTemp

theorem imageArtifactFromName_artifactName (hid : validateImageId id = .ok ()) (a : ImageArtifact) :
    imageArtifactFromName (artifactName id a.artifact) = .ok (some (id, a)) := by
  rw [imageArtifactFromName, artifactName]
  cases a with
  | sidecarTemp =>
    have hs : ImageArtifact.sidecarTemp.artifact.suffix = ".json.tmp".toList := rfl
    simp only [hs, dropSuffix?_append, Option.map_some, Option.some_or, hid]
  | sidecar =>
    have hs : ImageArtifact.sidecar.artifact.suffix = ".json".toList := rfl
    rw [hs, dropSuffix?_append_ne (by decide) (by decide), dropSuffix?_append]
    simp only [Option.map_none, Option.map_some, Option.none_or, Option.some_or, hid]
  | base =>
    have hs : ImageArtifact.base.artifact.suffix = ".qcow2".toList := rfl
    rw [hs, dropSuffix?_append_ne (by decide) (by decide), dropSuffix?_append_ne (by decide) (by decide),
      dropSuffix?_append]
    simp only [Option.map_none, Option.map_some, Option.none_or, hid]

theorem imageArtifactFromName_some {name : Name} {a : ImageArtifact}
    (h : imageArtifactFromName name = .ok (some (id, a))) :
    validateImageId id = .ok () ∧ name = artifactName id a.artifact := by
  unfold imageArtifactFromName at h
  dsimp only at h
  split at h
  · cases h
  · rename_i id' a' hparsed
    split at h
    · cases h
    · rename_i hid
      cases h
      refine ⟨hid, ?_⟩
      rcases Option.or_eq_some_iff.mp hparsed with hjson | ⟨-, hbase⟩
      · rcases Option.or_eq_some_iff.mp hjson with htemp | ⟨-, hside⟩
        · obtain ⟨r, hr, heq⟩ := Option.map_eq_some_iff.mp htemp
          cases heq
          exact eq_of_dropSuffix? hr
        · obtain ⟨r, hr, heq⟩ := Option.map_eq_some_iff.mp hside
          cases heq
          exact eq_of_dropSuffix? hr
      · obtain ⟨r, hr, heq⟩ := Option.map_eq_some_iff.mp hbase
        cases heq
        exact eq_of_dropSuffix? hr

end classify

end Firestone.Image
