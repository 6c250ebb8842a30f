import Firestone.Lib.OsPath
import Firestone.Spec
import Mathlib.Data.List.Infix

/-!
# Shared directories

Each mount of a machine is served by a virtiofsd of its own, under a tag. `mount_shapes` checks the list before any process
is started: no two mounts may have the same tag, and neither their host paths nor their guest paths may overlap.

* `mountShapes` — the check, and the shapes that it returns.
* `mountShapes_iff` — what is accepted.
* `eq_absolutePath_of_canonical` — a path that passes is written in the one way that its components have.
* `mountShapes_exact` — accepted mounts do not overlap.

Paths overlap by their components. A path with a `.`, a `..`, a doubled or a trailing separator is refused.
-/

namespace Firestone.Vmm.Virtiofs

open Firestone.Lib

def maxVirtiofsMounts : Nat := 16

def virtiofsTagMaxBytes : Nat := 36

def virtiofsPathMaxBytes : Nat := 4095

def virtiofsComponentMaxBytes : Nat := 255

/-- A mount, whose paths need not be text. -/
structure MountSpec where
  host : OsString
  guest : OsString
  readonly : Bool
  tag : Option String
  deriving DecidableEq, Repr

/-- A mount of a spec, where paths are text. -/
def MountSpec.ofSpec (mount : Firestone.MountSpec) : MountSpec :=
  ⟨.ofString mount.host, .ofString mount.guest, mount.readonly, mount.tag⟩

def MountSpec.effectiveTag (mount : MountSpec) (index : Nat) : String := mount.tag.getD ("share" ++ toString index)

structure MountShape where
  tag : String
  guest : OsString
  deriving DecidableEq, Repr

/-! ## The checks of one mount -/

def mountError (index : Nat) (field message hint : String) : FirestoneError :=
  (FirestoneError.new .invalidSpec ("'mount[" ++ toString index ++ "]." ++ field ++ "': " ++ message)).withHint hint

def noncanonicalPathError (index : Nat) (field : String) (path : OsString) : FirestoneError :=
  mountError index field (field ++ " path '" ++ path.display ++ "' is not canonical")
    ("remove '.', '..', duplicate separators, and trailing separators from mount." ++ field)

def isTagChar (c : Char) : Bool := c.isAlphanum || c = '.' || c = '_' || c = '-'

def validateTag (tag : String) (index : Nat) : Res Unit :=
  let valid := tag ≠ "" && tag.utf8ByteSize ≤ virtiofsTagMaxBytes && tag.toList.head?.any Char.isAlphanum &&
    tag.toList.all isTagChar
  if valid then .ok ()
  else .error <| mountError index "tag"
    ("tag '" ++ tag ++ "' must be 1 to " ++ toString virtiofsTagMaxBytes ++
      " ASCII bytes and contain only letters, digits, '.', '_', or '-'")
    "use a tag such as 'source' or omit it to use share0, share1, and so on"

def normalNames (path : OsString) : List OsString :=
  (pathComponents path).filterMap fun | .normal name => some name | _ => none

def validatePathBytes (path : OsString) (index : Nat) (field : String) : Res Unit :=
  if path.toStr = none then
    .error <| mountError index field (field ++ " path '" ++ path.display ++ "' is not UTF-8")
      ("use a UTF-8 mount " ++ field ++ " path")
  else if path.byteLength > virtiofsPathMaxBytes then
    .error <| mountError index field
      (field ++ " path is " ++ toString path.byteLength ++ " bytes; Linux permits at most " ++ toString virtiofsPathMaxBytes)
      ("use a shorter mount " ++ field ++ " path")
  else if .char '\x00' ∈ path then
    .error <| mountError index field (field ++ " path contains a NUL byte")
      ("remove the NUL byte from the mount " ++ field ++ " path")
  else match (normalNames path).find? fun name => name.byteLength > virtiofsComponentMaxBytes with
    | some name => .error <| mountError index field
        (field ++ " path component is " ++ toString name.byteLength ++ " bytes; Linux permits at most " ++
          toString virtiofsComponentMaxBytes) ("shorten the mount " ++ field ++ " path component")
    | none => .ok ()

def validateCanonicalSpelling (path : OsString) (index : Nat) (field : String) : Res Unit :=
  if path.byteLength > 1 ∧ (path.getLast? = some sep ∨ [sep, sep] <:+: path) then
    .error (noncanonicalPathError index field path)
  else if (path.splitOn sep).any fun component => component = [dot] || component = [dot, dot] then
    .error (noncanonicalPathError index field path)
  else .ok ()

def validateHostSpelling (path : OsString) (index : Nat) : Res Unit :=
  if !isAbsolute path then
    .error <| mountError index "host" ("host path '" ++ path.display ++ "' is not absolute")
      "resolve the host path through Paths before preparing virtiofsd"
  else do
    validatePathBytes path index "host"
    validateCanonicalSpelling path index "host"

def isAsciiControl : OsChar → Bool
  | .char c => c.toNat < 0x20 || c.toNat = 0x7f
  | .other _ => false

def validateGuestPath (path : OsString) (index : Nat) : Res OsString :=
  if !isAbsolute path then
    .error <| mountError index "guest" ("guest path '" ++ path.display ++ "' is not absolute")
      "use an absolute guest path such as '/work'"
  else if pathComponents path = pathComponents [sep] then
    .error <| mountError index "guest" "guest path '/' would replace the guest root filesystem"
      "use a dedicated mount point such as '/work'"
  else do
    validatePathBytes path index "guest"
    validateCanonicalSpelling path index "guest"
    if (normalNames path).any fun name => name.any isAsciiControl then
      .error <| mountError index "guest" ("guest path '" ++ path.display ++ "' contains a control byte")
        "remove control bytes from the guest mount point"
    else return path

/-! ## The list -/

def samePath (left right : OsString) : Bool := pathComponents left = pathComponents right

def startsWith (path base : OsString) : Bool := (pathComponents base).isPrefixOf (pathComponents path)

def pathsOverlap (left right : OsString) : Bool := samePath left right || startsWith left right || startsWith right left

/-- The loop over the host paths before this one, which are numbered from `previousIndex` on. -/
def checkHosts (index : Nat) (host : OsString) : Nat → List MountSpec → Res Unit
  | _, [] => .ok ()
  | previousIndex, previous :: rest =>
    if pathsOverlap previous.host host then
      .error <| mountError index "host"
        ("host path '" ++ host.display ++ "' overlaps mount[" ++ toString previousIndex ++ "].host '" ++
          previous.host.display ++ "'") "use disjoint host directories for separate virtio-fs devices"
    else checkHosts index host (previousIndex + 1) rest

def checkGuests (index : Nat) (guest : OsString) : Nat → List MountShape → Res Unit
  | _, [] => .ok ()
  | previousIndex, previous :: rest =>
    if pathsOverlap previous.guest guest then
      .error <| mountError index "guest"
        ("guest path '" ++ guest.display ++ "' overlaps mount[" ++ toString previousIndex ++ "].guest '" ++
          previous.guest.display ++ "'") "use disjoint absolute guest mount points"
    else checkGuests index guest (previousIndex + 1) rest

/-- What the loop has seen: the tags with their indices, the mounts and their shapes. -/
structure Seen where
  tags : List (String × Nat)
  mounts : List MountSpec
  shapes : List MountShape

/-- One turn of the loop. -/
def Seen.add (seen : Seen) (mount : MountSpec) : Res Seen := do
  let index := seen.mounts.length
  let tag := mount.effectiveTag index
  validateTag tag index
  match seen.tags.lookup tag with
  | some previous => throw (mountError index "tag"
      ("tag '" ++ tag ++ "' conflicts with mount[" ++ toString previous ++ "].tag")
      "set a unique tag or omit tags to use share0, share1, and so on")
  | none => do
    validateHostSpelling mount.host index
    checkHosts index mount.host 0 seen.mounts
    let guest ← validateGuestPath mount.guest index
    checkGuests index guest 0 seen.shapes
    return ⟨seen.tags ++ [(tag, index)], seen.mounts ++ [mount], seen.shapes ++ [⟨tag, guest⟩]⟩

def mountShapes (mounts : List MountSpec) : Res (List MountShape) :=
  if maxVirtiofsMounts < mounts.length then
    .error <| (FirestoneError.new .invalidSpec ("'mount': has " ++ toString mounts.length ++ " entries; at most " ++
      toString maxVirtiofsMounts ++ " are supported")).withHint
      "remove mounts until no more than 16 virtiofsd sidecars are required"
  else do
    let seen ← mounts.foldlM Seen.add ⟨[], [], []⟩
    return seen.shapes

/-! ## Overlap -/

/-- Neither path is the other or contains it. -/
def Separate (p q : OsString) : Prop := ¬ pathComponents p <+: pathComponents q ∧ ¬ pathComponents q <+: pathComponents p

theorem pathsOverlap_eq_false {p q : OsString} : pathsOverlap p q = false ↔ Separate p q := by
  rw [pathsOverlap, Bool.or_eq_false_iff, Bool.or_eq_false_iff, samePath, decide_eq_false_iff_not, ← Bool.not_eq_true,
    ← Bool.not_eq_true, startsWith, startsWith, List.isPrefixOf_iff_prefix, List.isPrefixOf_iff_prefix]
  constructor
  · rintro ⟨⟨-, hpq⟩, hqp⟩
    exact ⟨hqp, hpq⟩
  · rintro ⟨hpq, hqp⟩
    exact ⟨⟨fun h => hpq (h ▸ List.prefix_rfl), hqp⟩, hpq⟩

theorem checkHosts_iff (index : Nat) {host : OsString} {previousIndex : Nat} {mounts : List MountSpec} :
    checkHosts index host previousIndex mounts = .ok () ↔ ∀ previous ∈ mounts, Separate previous.host host := by
  induction mounts generalizing previousIndex with
  | nil => simp [checkHosts]
  | cons previous rest ih =>
    rw [checkHosts, List.forall_mem_cons, ← pathsOverlap_eq_false]
    split
    · rename_i h
      simp [h]
    · rename_i h
      rw [ih]
      simp [h]

theorem checkGuests_iff (index : Nat) {guest : OsString} {previousIndex : Nat} {shapes : List MountShape} :
    checkGuests index guest previousIndex shapes = .ok () ↔ ∀ previous ∈ shapes, Separate previous.guest guest := by
  induction shapes generalizing previousIndex with
  | nil => simp [checkGuests]
  | cons previous rest ih =>
    rw [checkGuests, List.forall_mem_cons, ← pathsOverlap_eq_false]
    split
    · rename_i h
      simp [h]
    · rename_i h
      rw [ih]
      simp [h]

/-! ## What is accepted -/

/-- The mount passes the checks that look at it alone. -/
structure Passes (mount : MountSpec) (index : Nat) : Prop where
  tag : validateTag (mount.effectiveTag index) index = .ok ()
  host : validateHostSpelling mount.host index = .ok ()
  guest : validateGuestPath mount.guest index = .ok mount.guest

def effectiveTags (mounts : List MountSpec) : List String := mounts.zipIdx.map fun x => x.1.effectiveTag x.2

structure Accepted (mounts : List MountSpec) : Prop where
  passes : ∀ x ∈ mounts.zipIdx, Passes x.1 x.2
  tags : (effectiveTags mounts).Nodup
  hosts : mounts.Pairwise fun a b => Separate a.host b.host
  guests : mounts.Pairwise fun a b => Separate a.guest b.guest

/-- The mount may follow these. -/
structure Follows (earlier : List MountSpec) (mount : MountSpec) : Prop where
  passes : Passes mount earlier.length
  tag : mount.effectiveTag earlier.length ∉ effectiveTags earlier
  host : ∀ previous ∈ earlier, Separate previous.host mount.host
  guest : ∀ previous ∈ earlier, Separate previous.guest mount.guest

def shapesOf (mounts : List MountSpec) : List MountShape :=
  mounts.zipIdx.map fun x => ⟨x.1.effectiveTag x.2, x.1.guest⟩

/-- What the loop has seen after these mounts. -/
def seenOf (mounts : List MountSpec) : Seen :=
  ⟨mounts.zipIdx.map fun x => (x.1.effectiveTag x.2, x.2), mounts, shapesOf mounts⟩

section Loop

variable {earlier mounts : List MountSpec} {mount : MountSpec} {seen : Seen}

theorem Accepted.nil : Accepted [] := ⟨by simp, .nil, .nil, .nil⟩

theorem zipIdx_concat : (earlier ++ [mount]).zipIdx = earlier.zipIdx ++ [(mount, earlier.length)] := by
  rw [List.zipIdx_append]
  simp

theorem accepted_concat : Accepted (earlier ++ [mount]) ↔ Accepted earlier ∧ Follows earlier mount := by
  have htags : effectiveTags (earlier ++ [mount]) = effectiveTags earlier ++ [mount.effectiveTag earlier.length] :=
    by rw [effectiveTags, zipIdx_concat, List.map_append]; rfl
  have hnodup : (effectiveTags earlier ++ [mount.effectiveTag earlier.length]).Nodup ↔
      (effectiveTags earlier).Nodup ∧ mount.effectiveTag earlier.length ∉ effectiveTags earlier := by
    rw [List.nodup_append_comm, List.singleton_append, List.nodup_cons, and_comm]
  have hpairwise : ∀ R : MountSpec → MountSpec → Prop, (earlier ++ [mount]).Pairwise R ↔
      earlier.Pairwise R ∧ ∀ previous ∈ earlier, R previous mount := by
    intro R
    simp [List.pairwise_append]
  constructor
  · rintro ⟨hpasses, hdistinct, hhosts, hguests⟩
    rw [zipIdx_concat, List.forall_mem_append, List.forall_mem_singleton] at hpasses
    rw [htags, hnodup] at hdistinct
    rw [hpairwise] at hhosts hguests
    exact ⟨⟨hpasses.1, hdistinct.1, hhosts.1, hguests.1⟩, ⟨hpasses.2, hdistinct.2, hhosts.2, hguests.2⟩⟩
  · rintro ⟨h, hfollows⟩
    refine ⟨?_, ?_, (hpairwise _).mpr ⟨h.hosts, hfollows.host⟩, (hpairwise _).mpr ⟨h.guests, hfollows.guest⟩⟩
    · rw [zipIdx_concat, List.forall_mem_append, List.forall_mem_singleton]
      exact ⟨h.passes, hfollows.passes⟩
    · rw [htags, hnodup]
      exact ⟨h.tags, hfollows.tag⟩

theorem Accepted.of_append (h : Accepted (earlier ++ mounts)) : Accepted earlier := by
  refine ⟨fun x hx => h.passes x ?_, ?_, (List.pairwise_append.mp h.hosts).1, (List.pairwise_append.mp h.guests).1⟩
  · rw [List.zipIdx_append]
    exact List.mem_append_left _ hx
  · have htags := h.tags
    rw [effectiveTags, List.zipIdx_append, List.map_append] at htags
    exact htags.of_append_left

theorem validateGuestPath_ok {path guest : OsString} {index : Nat} (h : validateGuestPath path index = .ok guest) :
    guest = path := by
  unfold validateGuestPath at h
  split at h
  · cases h
  · split at h
    · cases h
    · obtain ⟨_, _, h⟩ := Res.bind_ok h
      obtain ⟨_, _, h⟩ := Res.bind_ok h
      split at h
      · cases h
      · cases h
        rfl

theorem lookup_tags_eq_none {tag : String} : (seenOf earlier).tags.lookup tag = none ↔ tag ∉ effectiveTags earlier := by
  have hkeys : (seenOf earlier).tags.map Prod.fst = effectiveTags earlier := by
    rw [seenOf, effectiveTags, List.map_map]
    rfl
  rw [List.lookup_eq_none_iff, ← hkeys, List.mem_map]
  constructor
  · rintro h ⟨x, hx, rfl⟩
    exact bne_iff_ne.mp (h x hx) rfl
  · intro h x hx
    exact bne_iff_ne.mpr fun heq => h ⟨x, hx, heq.symm⟩

/-- One turn of the loop. -/
theorem add_seenOf : (seenOf earlier).add mount = .ok seen ↔ Follows earlier mount ∧ seen = seenOf (earlier ++ [mount]) := by
  have hnext : seenOf (earlier ++ [mount]) = ⟨(seenOf earlier).tags ++ [(mount.effectiveTag earlier.length, earlier.length)],
      earlier ++ [mount], shapesOf earlier ++ [⟨mount.effectiveTag earlier.length, mount.guest⟩]⟩ := by
    simp [seenOf, shapesOf, zipIdx_concat]
  have hguests : (∀ previous ∈ shapesOf earlier, Separate previous.guest mount.guest) ↔
      ∀ previous ∈ earlier, Separate previous.guest mount.guest := by
    have hmap : (shapesOf earlier).map MountShape.guest = earlier.map MountSpec.guest := by
      rw [shapesOf, List.map_map]
      calc earlier.zipIdx.map (MountSpec.guest ∘ Prod.fst) = (earlier.zipIdx.map Prod.fst).map MountSpec.guest :=
            (List.map_map ..).symm
        _ = earlier.map MountSpec.guest := by rw [List.zipIdx_map_fst]
    have hshapes : (∀ guest ∈ (shapesOf earlier).map MountShape.guest, Separate guest mount.guest) ↔ _ := List.forall_mem_map
    rw [hmap] at hshapes
    exact hshapes.symm.trans List.forall_mem_map
  unfold Seen.add
  constructor
  · intro h
    obtain ⟨_, htag, h⟩ := Res.bind_ok h
    split at h
    · cases h
    · rename_i hnew
      obtain ⟨_, hhost, h⟩ := Res.bind_ok h
      obtain ⟨_, hhosts, h⟩ := Res.bind_ok h
      obtain ⟨guest, hguest, h⟩ := Res.bind_ok h
      obtain ⟨_, hothers, h⟩ := Res.bind_ok h
      obtain rfl := validateGuestPath_ok hguest
      cases h
      exact ⟨⟨⟨htag, hhost, hguest⟩, lookup_tags_eq_none.mp hnew, (checkHosts_iff _).mp hhosts,
        hguests.mp ((checkGuests_iff _).mp hothers)⟩, hnext.symm⟩
  · rintro ⟨⟨⟨htag, hhost, hguest⟩, hnew, hhosts, hothers⟩, rfl⟩
    have hhosts' : checkHosts earlier.length mount.host 0 earlier = .ok () := (checkHosts_iff _).mpr hhosts
    have hothers' : checkGuests earlier.length mount.guest 0 (shapesOf earlier) = .ok () :=
      (checkGuests_iff _).mpr (hguests.mpr hothers)
    change (validateTag (mount.effectiveTag earlier.length) earlier.length >>= _) = _
    rw [htag, hnext]
    change (match (seenOf earlier).tags.lookup (mount.effectiveTag earlier.length) with | some _ => _ | none => _) = _
    rw [lookup_tags_eq_none.mpr hnew]
    change (validateHostSpelling mount.host earlier.length >>= _) = _
    rw [hhost]
    change (checkHosts earlier.length mount.host 0 earlier >>= _) = _
    rw [hhosts']
    change (validateGuestPath mount.guest earlier.length >>= _) = _
    rw [hguest]
    change (checkGuests earlier.length mount.guest 0 (shapesOf earlier) >>= _) = _
    rw [hothers']
    rfl

theorem foldlM_add (h : Accepted earlier) :
    mounts.foldlM Seen.add (seenOf earlier) = .ok seen ↔ Accepted (earlier ++ mounts) ∧ seen = seenOf (earlier ++ mounts) := by
  induction mounts generalizing earlier with
  | nil =>
    rw [List.append_nil]
    constructor
    · intro hseen
      cases hseen
      exact ⟨h, rfl⟩
    · rintro ⟨-, rfl⟩
      rfl
  | cons mount mounts ih =>
    have hsplit : earlier ++ mount :: mounts = earlier ++ [mount] ++ mounts := by simp
    rw [List.foldlM_cons, Res.bind_ok_iff, hsplit]
    constructor
    · rintro ⟨_, hadd, hrest⟩
      obtain ⟨hfollows, rfl⟩ := add_seenOf.mp hadd
      exact (ih (accepted_concat.mpr ⟨h, hfollows⟩)).mp hrest
    · rintro ⟨hall, rfl⟩
      have hfirst : Accepted (earlier ++ [mount]) := hall.of_append
      exact ⟨_, add_seenOf.mpr ⟨(accepted_concat.mp hfirst).2, rfl⟩, (ih hfirst).mpr ⟨hall, rfl⟩⟩

/-- The lists that are accepted, and the shapes that are returned for them. -/
theorem mountShapes_iff {shapes : List MountShape} : mountShapes mounts = .ok shapes ↔
    mounts.length ≤ maxVirtiofsMounts ∧ Accepted mounts ∧ shapes = shapesOf mounts := by
  have hfold := fun {seen : Seen} => @foldlM_add [] mounts seen Accepted.nil
  unfold mountShapes
  split
  · rename_i hlength
    constructor
    · intro h
      cases h
    · rintro ⟨hle, -, -⟩
      exact absurd hlength (Nat.not_lt.mpr hle)
  · rename_i hlength
    rw [Res.bind_ok_iff]
    constructor
    · rintro ⟨seen, hseen, h⟩
      obtain ⟨haccepted, rfl⟩ := hfold.mp hseen
      cases h
      exact ⟨Nat.not_lt.mp hlength, haccepted, rfl⟩
    · rintro ⟨-, haccepted, rfl⟩
      exact ⟨_, hfold.mpr ⟨haccepted, rfl⟩, rfl⟩

end Loop

/-! ## Spelling -/

section Spelling

variable {path : OsString} {index : Nat} {field : String}

theorem length_le_byteLength {s : String} : (OsString.ofString s).length ≤ (OsString.ofString s).byteLength := by
  have hall : ∀ cs : List Char, (cs.map OsChar.char).length ≤ OsString.byteLength (cs.map OsChar.char) := by
    intro cs
    induction cs with
    | nil => exact Nat.le_refl 0
    | cons c cs ih =>
      have hc : 1 ≤ c.utf8Size := c.utf8Size_pos
      simp only [OsString.byteLength, List.map_cons, List.sum_cons, List.length_cons] at ih ⊢
      omega
  exact hall s.toList

/-- No piece of a path that passes is empty, unless the path is the root. -/
theorem nil_notMem_of_canonical {pieces : List OsString} (htext : path.toStr ≠ none)
    (hpath : path = pieces.flatMap (sep :: ·)) (h : validateCanonicalSpelling path index field = .ok ())
    (hroot : path ≠ [sep]) : [] ∉ pieces := by
  intro hnil
  obtain ⟨first, rest, rfl⟩ := List.append_of_mem hnil
  obtain ⟨text, htext⟩ := Option.ne_none_iff_exists'.mp htext
  have hlength : path.length ≤ path.byteLength := by
    rw [OsString.ofString_of_toStr htext]
    exact length_le_byteLength
  have hsplit : path = first.flatMap (sep :: ·) ++ sep :: rest.flatMap (sep :: ·) := by
    rw [hpath, List.flatMap_append, List.flatMap_cons]
    rfl
  have hlong : path.byteLength > 1 := by
    by_contra hshort
    have hone : path.length = (first.flatMap (sep :: ·)).length + ((rest.flatMap (sep :: ·)).length + 1) := by
      rw [hsplit, List.length_append, List.length_cons]
    have hfirst : first.flatMap (sep :: ·) = [] := List.length_eq_zero_iff.mp (by omega)
    have hrest : rest.flatMap (sep :: ·) = [] := List.length_eq_zero_iff.mp (by omega)
    rw [hfirst, hrest] at hsplit
    exact hroot hsplit
  have hbad : path.getLast? = some sep ∨ [sep, sep] <:+: path := by
    cases rest with
    | nil =>
      refine .inl ?_
      rw [hsplit, List.flatMap_nil, List.getLast?_concat]
    | cons piece rest =>
      refine .inr ⟨first.flatMap (sep :: ·), piece ++ rest.flatMap (sep :: ·), ?_⟩
      rw [hsplit, List.flatMap_cons]
      simp
  rw [validateCanonicalSpelling, if_pos ⟨hlong, hbad⟩] at h
  cases h

/-- An absolute path that passes is written as the system writes it. -/
theorem eq_absolutePath_of_canonical (htext : path.toStr ≠ none) (habsolute : isAbsolute path = true)
    (h : validateCanonicalSpelling path index field = .ok ()) :
    ∃ names, (∀ name ∈ names, IsName name) ∧ path = absolutePath names := by
  by_cases hroot : path = [sep]
  · exact ⟨[], by simp, hroot⟩
  obtain ⟨rest, hrest⟩ := List.head?_eq_some_iff.mp (of_decide_eq_true habsolute)
  have hpieces : path.splitOn sep = [] :: rest.splitOn sep := by
    rw [hrest, List.splitOn_cons_eq_if_modifyHead, if_pos (beq_self_eq_true sep)]
  have hpath : path = (rest.splitOn sep).flatMap (sep :: ·) := by
    rw [← flatMap_sep, ← hpieces, List.intercalate_splitOn]
  have hnil := nil_notMem_of_canonical htext hpath h hroot
  have hdots : ∀ piece ∈ path.splitOn sep, piece ≠ [dot] ∧ piece ≠ [dot, dot] := by
    unfold validateCanonicalSpelling at h
    split at h
    · cases h
    · split at h
      · cases h
      · rename_i hany
        simpa using hany
  refine ⟨rest.splitOn sep, fun name hname => ?_, ?_⟩
  · obtain ⟨hdot, hdots⟩ := hdots name (hpieces ▸ List.mem_cons_of_mem _ hname)
    exact ⟨fun hempty => hnil (hempty ▸ hname), notMem_of_mem_splitOn hname, hdot, hdots⟩
  · rw [absolutePath, if_neg (List.splitOn_ne_nil _ _), ← hpath]

theorem validatePathBytes_text (h : validatePathBytes path index field = .ok ()) : path.toStr ≠ none := by
  intro hnone
  rw [validatePathBytes, if_pos hnone] at h
  cases h

theorem validateHostSpelling_canonical (h : validateHostSpelling path index = .ok ()) :
    ∃ names, (∀ name ∈ names, IsName name) ∧ path = absolutePath names := by
  unfold validateHostSpelling at h
  split at h
  · cases h
  · rename_i habsolute
    obtain ⟨_, hbytes, hspelling⟩ := Res.bind_ok h
    exact eq_absolutePath_of_canonical (validatePathBytes_text hbytes) (by simpa using habsolute) hspelling

theorem validateGuestPath_canonical {guest : OsString} (h : validateGuestPath path index = .ok guest) :
    ∃ names, (∀ name ∈ names, IsName name) ∧ names ≠ [] ∧ path = absolutePath names := by
  unfold validateGuestPath at h
  split at h
  · cases h
  · rename_i habsolute
    split at h
    · cases h
    · rename_i hroot
      obtain ⟨_, hbytes, h⟩ := Res.bind_ok h
      obtain ⟨_, hspelling, _⟩ := Res.bind_ok h
      obtain ⟨names, hnames, hpath⟩ :=
        eq_absolutePath_of_canonical (validatePathBytes_text hbytes) (by simpa using habsolute) hspelling
      refine ⟨names, hnames, ?_, hpath⟩
      rintro rfl
      exact hroot (congrArg pathComponents hpath)

end Spelling

/-! ## Accepted lists -/

/-- The paths of an accepted mount are written in the one way that is accepted for their components. -/
theorem Accepted.canonical {mounts : List MountSpec} (h : Accepted mounts) {mount : MountSpec} (hmount : mount ∈ mounts) :
    (∃ names, (∀ name ∈ names, IsName name) ∧ mount.host = absolutePath names) ∧
      ∃ names, (∀ name ∈ names, IsName name) ∧ names ≠ [] ∧ mount.guest = absolutePath names := by
  obtain ⟨index, hindex⟩ : ∃ index, (mount, index) ∈ mounts.zipIdx := by
    rw [← List.zipIdx_map_fst 0 mounts] at hmount
    obtain ⟨⟨_, index⟩, hx, rfl⟩ := List.mem_map.mp hmount
    exact ⟨index, hx⟩
  have hpasses := h.passes _ hindex
  exact ⟨validateHostSpelling_canonical hpasses.host, validateGuestPath_canonical hpasses.guest⟩

/-- **Accepted mounts do not overlap.** Overlap is a matter of the components, and of the texts with the same components only
one is accepted. -/
theorem mountShapes_exact (mounts : List MountSpec) :
    (∀ shapes, mountShapes mounts = .ok shapes →
      mounts.length ≤ 16 ∧ (effectiveTags mounts).Nodup ∧
      mounts.Pairwise (fun a b => Separate a.host b.host) ∧ mounts.Pairwise (fun a b => Separate a.guest b.guest) ∧
      ∀ mount ∈ mounts, pathComponents mount.guest ≠ [.rootDir] ∧
        (∃ names, (∀ name ∈ names, IsName name) ∧ mount.host = absolutePath names) ∧
        ∃ names, (∀ name ∈ names, IsName name) ∧ mount.guest = absolutePath names) ∧
    ∀ left left' right right', pathComponents left = pathComponents left' → pathComponents right = pathComponents right' →
      pathsOverlap left right = pathsOverlap left' right' := by
  refine ⟨fun shapes h => ?_, fun left left' right right' hleft hright => ?_⟩
  · obtain ⟨hlength, haccepted, -⟩ := mountShapes_iff.mp h
    refine ⟨hlength, haccepted.tags, haccepted.hosts, haccepted.guests, fun mount hmount => ?_⟩
    obtain ⟨hhost, names, hnames, hne, hguest⟩ := haccepted.canonical hmount
    refine ⟨?_, hhost, names, hnames, hguest⟩
    rw [hguest, components_absolutePath hnames]
    simpa using hne
  · rw [pathsOverlap, pathsOverlap, samePath, samePath, startsWith, startsWith, startsWith, startsWith, hleft, hright]

/-- A trailing slash makes the difference. -/
theorem mountShapes_spelling : ¬ ∀ mounts mounts' : List MountSpec,
    List.Forall₂ (fun a b => pathComponents a.host = pathComponents b.host ∧ pathComponents a.guest = pathComponents b.guest ∧
      a.readonly = b.readonly ∧ a.tag = b.tag) mounts mounts' →
    ((∃ shapes, mountShapes mounts = .ok shapes) ↔ ∃ shapes, mountShapes mounts' = .ok shapes) := by
  intro h
  have hplain : mountShapes [⟨.ofString "/a", .ofString "/g", false, none⟩] = .ok [⟨"share0", .ofString "/g"⟩] := by decide
  have hslash : ∀ shapes, mountShapes [⟨.ofString "/a", .ofString "/g/", false, none⟩] ≠ .ok shapes := by
    intro shapes hshapes
    obtain ⟨-, haccepted, -⟩ := mountShapes_iff.mp hshapes
    have hguest := (haccepted.passes _ (List.mem_singleton_self _)).guest
    revert hguest
    decide
  obtain ⟨shapes, hshapes⟩ := (h [⟨.ofString "/a", .ofString "/g", false, none⟩] [⟨.ofString "/a", .ofString "/g/", false, none⟩]
    (.cons ⟨by decide, by decide, rfl, rfl⟩ .nil)).mp ⟨_, hplain⟩
  exact hslash shapes hshapes

end Firestone.Vmm.Virtiofs
