import Firestone.Image.FileNames
import Firestone.Image.References
import Firestone.Lib.Bytes
import Firestone.Lib.Crash
import Mathlib.Data.List.Dedup
import Mathlib.Data.List.Sort
import Mathlib.Data.List.Lex

/-!
# Crash recovery of the image store

Pulls, sidecar refreshes and removals change the images directory file by file and may stop between any two of these
steps. Every operation but `prune_unreferenced` begins with `cleanup_stale_partials`, which finishes or undoes what the
operation before it left behind.

* `cleanupStalePartials` — recovery, as a script over the directory.
* `Pull.writes`, `removePair` — the steps of the operations.
* `step` — one operation, up to the point where it stops.
* `Tidy` — what recovery establishes.
* `store_recovers` — over all runs: a recovery that succeeds leaves the directory tidy, complete pairs survive all that
  does not remove them, and recovery spares the images whose references it sees.

One action is one operation under the image-store lock. A file is its contents: a partial is created anew by the pull
that fills it, and no file is written to after a second name was linked to it. What a stop in the middle of filling a
file leaves is a file of other contents. The modes and owners recovery checks are left out: such a check that fails is
a stop.
-/

namespace Firestone.Image.Recovery

open Firestone.Lib

/-! ## The images directory -/

/-- The regular files of the images directory. -/
abbrev Dir := List (Name × Bytes)

inductive Write
  | remove (name : Name)
  | rename (source dest : Name)
  | link (source dest : Name)
  | write (name : Name) (bytes : Bytes)

def apply (d : Dir) : Write → Dir
  | .remove name => eraseMember name d
  | .rename source dest =>
    match d.lookup source with
    | none => d
    | some bytes => insertMember dest bytes (eraseMember source d)
  | .link source dest =>
    match d.lookup source, d.lookup dest with
    | some bytes, none => insertMember dest bytes d
    | _, _ => d
  | .write name bytes => insertMember name bytes d

def present (d : Dir) (name : Name) : Bool := (d.lookup name).isSome

def Dir.names (d : Dir) : List Name := d.map Prod.fst

/-! ## References -/

/-- The machines, with the images that the state and the snapshots of each name. -/
abbrev Machines := List (String × List Name)

/-- Reads the listed machines one after the other. They may change meanwhile: `walk (i + 1)` is the machines directory
when entry `i` is read. -/
def readMachines (walk : Nat → Machines) : Nat → List String → Res (List (Name × String))
  | _, [] => .ok []
  | i, name :: names =>
    match (walk (i + 1)).lookup name with
    | none =>
      .error ((FirestoneError.new .notFound s!"cannot inspect machine directory entry image file '{name}'").withHint
        "check the Firestone data directory permissions and free space")
    | some ids => do
      let rest ← readMachines walk (i + 1) names
      return if References.dotted name then rest else ids.map (·, name) ++ rest

def imageReferences (walk : Nat → Machines) : Res (List (Name × String)) :=
  readMachines walk 0 (((walk 0).map Prod.fst).insertionSort (· ≤ ·))

def referencing (references : List (Name × String)) (id : Name) : List String :=
  (((references.filter fun r => r.1 = id).map Prod.snd).dedup).insertionSort (· ≤ ·)

/-! ## Recovery -/

/-- An operation on the images directory. -/
abbrev Op := Script Dir Write FirestoneError

def moveToTombstone (source tombstone : Name) (label : String) : Op := fun d =>
  match present d source, present d tombstone with
  | false, _ => Script.done d
  | true, false => Script.write (.rename source tombstone) d
  | true, true => Script.fail ((FirestoneError.new .conflict
      s!"both {label} '{String.ofList source}' and removal tombstone '{String.ofList tombstone}' exist").withHint
      "move the conflicting image files aside and retry") d

def removeTombstone (path : Name) : Op := fun d =>
  if present d path then Script.write (.remove path) d else Script.done d

def completeStaleRemoval (id : Name) : Op :=
  match validateImageId id with
  | .error e => Script.fail e
  | .ok () =>
    Script.andThen apply (moveToTombstone (artifactName id .sidecar) (artifactName id .sidecarRemoval) "image sidecar") <|
    Script.andThen apply (moveToTombstone (artifactName id .base) (artifactName id .baseRemoval) "image base") <|
    Script.andThen apply (removeTombstone (artifactName id .sidecarRemoval)) <|
    removeTombstone (artifactName id .baseRemoval)

structure ImagePairPresence where
  base : Bool := false
  sidecar : Bool := false
  sidecarTemp : Bool := false

def ImagePairPresence.note (presence : ImagePairPresence) : ImageArtifact → ImagePairPresence
  | .base => { presence with base := true }
  | .sidecar => { presence with sidecar := true }
  | .sidecarTemp => { presence with sidecarTemp := true }

def ImagePairPresence.complete (presence : ImagePairPresence) : Bool := presence.base && presence.sidecar

/-- The files of each image, from the names. -/
def readPairs (pairs : List (Name × ImagePairPresence)) : List Name → Res (List (Name × ImagePairPresence))
  | [] => .ok pairs
  | name :: names =>
    match imageArtifactFromName name with
    | .error e => .error e
    | .ok none => readPairs pairs names
    | .ok (some (id, artifact)) =>
      readPairs (insertMember id (((pairs.lookup id).getD {}).note artifact) pairs) names

def removeIf (b : Bool) (name : Name) : Op := if b then Script.write (.remove name) else Script.done

def recoverPair (references : List (Name × String)) (pair : Name × ImagePairPresence) : Op :=
  let (id, presence) := pair
  let machineNames := referencing references id
  let joined := ", ".intercalate machineNames
  if !presence.complete && !machineNames.isEmpty then
    Script.fail ((FirestoneError.new .checksum
      s!"referenced image `{String.ofList id}` has an incomplete base/sidecar publication; referenced by machine(s): {joined}").withHint
      "restore the missing immutable image file before retrying; Firestone preserved the remaining files")
  else
    Script.andThen apply (removeIf presence.sidecarTemp (artifactName id .sidecarTemp)) <|
    if presence.complete then Script.done
    else
      Script.andThen apply (removeIf presence.sidecar (artifactName id .sidecar)) <|
      removeIf presence.base (artifactName id .base)

def recoverIncompletePairs (walk : Nat → Machines) : Op := fun d =>
  match readPairs [] d.names with
  | .error e => Script.fail e d
  | .ok pairs =>
    match if pairs.any fun pair => !pair.2.complete then imageReferences walk else .ok [] with
    | .error e => Script.fail e d
    | .ok references => Script.forEach apply (recoverPair references) pairs d

def removalIds (listing : List Name) : List Name := (listing.filterMap removalIdFromName).dedup.insertionSort (· ≤ ·)

def removePartial (name : Name) : Op := removeIf (isKnownPartialName name) name

/-- Recovery, with the names in the order the directory gives them. -/
def cleanupStalePartials (listing : List Name) (walk : Nat → Machines) : Op :=
  Script.andThen apply (Script.forEach apply removePartial listing) <|
  Script.andThen apply (Script.forEach apply completeStaleRemoval (removalIds listing)) <|
  recoverIncompletePairs walk

/-! ## Pulls and removals -/

/-- What a pull stages. -/
inductive Content
  /-- A disk image, converted unless it is a qcow2 file. -/
  | disk (source : Bytes) (converted : Option Bytes)
  /-- The layers of an OCI image, their merge, the file for the root filesystem before and after `mkfs.ext4`, and the
  converted file. -/
  | oci (layers : List Bytes) (tar sized rootfs stored : Bytes)

structure Pull where
  id : ImageId
  operation : OperationKey
  content : Content
  sidecar : Bytes
  /-- What is stored under the id needs a new sidecar. -/
  changed : Bool

namespace Pull

variable (p : Pull)

def part (x : Part) : Name := partialName p.operation.1 x

def file (a : Artifact) : Name := artifactName p.id.1 a

def parts : List Part :=
  match p.content with
  | .disk _ _ => [.source, .stored]
  | .oci layers _ _ _ _ => [.source, .stored, .tar] ++ (List.range layers.length).map .layer

/-- `atomic::write_with_mode` for the sidecar. -/
def writeSidecar : List Write :=
  [.remove (p.file .sidecarTemp), .write (p.file .sidecarTemp) p.sidecar,
    .rename (p.file .sidecarTemp) (p.file .sidecar)]

/-- `publish_no_replace` for the base, then the sidecar. -/
def publish (candidate : Part) : List Write :=
  [.link (p.part candidate) (p.file .base), .remove (p.part candidate)] ++ p.writeSidecar

/-- `existing_identity`: a pair that is stored is refreshed, and the rest of the pull left out. -/
def existingIdentity (d : Dir) (rest : List Write) : List Write :=
  match present d (p.file .base), present d (p.file .sidecar) with
  | false, false => rest
  | true, true => if p.changed then p.writeSidecar else []
  | _, _ => []

/-- The steps of `pull_locked` and `pull_oci_locked`. -/
def writes (d : Dir) : List Write :=
  match p.content with
  | .disk source converted =>
    [.remove (p.part .source), .remove (p.part .stored), .write (p.part .source) source] ++
      p.existingIdentity d (match converted with
        | none => p.publish .source ++ [.remove (p.part .source), .remove (p.part .stored)]
        | some stored => [.write (p.part .stored) stored] ++ p.publish .stored ++
            [.remove (p.part .source), .remove (p.part .stored)])
  | .oci layers tar sized rootfs stored =>
    p.existingIdentity d (p.parts.map (fun x => .remove (p.part x)) ++
      layers.zipIdx.map (fun x => .write (p.part (.layer x.2)) x.1) ++
      [.write (p.part .tar) tar, .write (p.part .source) sized, .write (p.part .source) rootfs,
        .remove (p.part .tar)] ++
      (List.range layers.length).map (fun i => .remove (p.part (.layer i))) ++
      [.write (p.part .stored) stored] ++ p.publish .stored ++ [.remove (p.part .source)])

/-- What the pull removes on its way out when it fails: its partials, the temporary file of the sidecar and, when it
was to publish the pair, that. A removal that fails is passed over. -/
def tracked (d : Dir) : List Name :=
  (match present d (p.file .base), present d (p.file .sidecar) with
    | false, false => [p.file .sidecarTemp, p.file .sidecar, p.file .base]
    | _, _ => [p.file .sidecarTemp]) ++ (p.parts.map p.part).reverse

end Pull

/-- The steps of `remove_pair`. -/
def removePair (id : ImageId) : List Write :=
  [.rename (artifactName id.1 .sidecar) (artifactName id.1 .sidecarRemoval),
    .rename (artifactName id.1 .base) (artifactName id.1 .baseRemoval),
    .remove (artifactName id.1 .sidecarRemoval), .remove (artifactName id.1 .baseRemoval)]

/-! ## Runs -/

structure Store where
  dir : Dir
  machines : Machines
  /-- Recovery has succeeded and no operation came after it. -/
  recovered : Bool

inductive Event
  /-- Recovery, to its end or up to the write it stops after. -/
  | cleanup (listing : List Name) (walk : Nat → Machines) (stop : Option Nat)
  /-- A pull up to the write it stops after, and the files it removes when it fails there. -/
  | pull (p : Pull) (stop : Nat) (swept : List Name)
  /-- A removal up to the write it stops after. It takes the first back when the second fails. -/
  | remove (id : ImageId) (stop : Nat) (undone : Bool)
  | machines (machines : Machines)

def step (s : Store) : Event → Option Store
  | .cleanup listing walk stop =>
    if listing.Perm s.dir.names then
      let (ws, result) := cleanupStalePartials listing walk s.dir
      let done := match stop with
        | none => ws
        | some k => ws.take k
      some ⟨done.foldl apply s.dir, walk (walk 0).length, stop.isNone && result.isOk⟩
    else none
  | .pull p stop swept =>
    if s.recovered && decide (swept.Sublist (p.tracked s.dir)) then
      some ⟨(((p.writes s.dir).take stop) ++ swept.map Write.remove).foldl apply s.dir, s.machines, false⟩
    else none
  | .remove id stop undone =>
    if present s.dir (artifactName id.1 .base) && present s.dir (artifactName id.1 .sidecar) &&
        !present s.dir (artifactName id.1 .baseRemoval) && !present s.dir (artifactName id.1 .sidecarRemoval) &&
        (!undone || stop == 1) then
      let back := if undone then [.rename (artifactName id.1 .sidecarRemoval) (artifactName id.1 .sidecar)] else []
      some ⟨((removePair id).take stop ++ back).foldl apply s.dir, s.machines, false⟩
    else none
  | .machines machines =>
    if machines.all fun m => References.validComponent m.1 then some { s with machines } else none

/-! ## What recovery is for -/

/-- The pair is stored, with these bytes in the base. -/
def Complete (d : Dir) (id : ImageId) (bytes : Bytes) : Prop :=
  d.lookup (artifactName id.1 .base) = some bytes ∧ present d (artifactName id.1 .sidecar) = true

def Stored (d : Dir) (id : ImageId) : Prop :=
  present d (artifactName id.1 .base) = true ∧ present d (artifactName id.1 .sidecar) = true

def HasFile (d : Dir) (id : ImageId) : Prop := ∃ a, present d (artifactName id.1 a) = true

/-- A removal of the image has left a tombstone. -/
def RemovalStarted (d : Dir) (id : ImageId) : Prop :=
  ∃ a : Artifact, a.isRemoval = true ∧ present d (artifactName id.1 a) = true

/-- Nothing is left of an operation that was interrupted. -/
structure Tidy (d : Dir) : Prop where
  partials : ∀ (key : OperationKey) (x : Part), present d (partialName key.1 x) = false
  temps : ∀ id : ImageId, present d (artifactName id.1 .sidecarTemp) = false
  tombstones : ∀ id : ImageId, ¬ RemovalStarted d id
  pairs : ∀ id : ImageId, present d (artifactName id.1 .base) = present d (artifactName id.1 .sidecar)

def Referenced (machines : Machines) (name : String) (id : Name) : Prop :=
  ∃ ids, machines.lookup name = some ids ∧ id ∈ ids

/-- Recovery sees the references to images stored in part: the machines have no dot in front of their names, and the
references are there from the listing of the machines to the last read. -/
def InSight (d : Dir) (walk : Nat → Machines) : Prop :=
  ∀ (id : ImageId) (name : String), HasFile d id → ¬ Stored d id → ¬ RemovalStarted d id →
    Referenced (walk (walk 0).length) name id.1 →
      References.dotted name = false ∧ ∀ i ≤ (walk 0).length, Referenced (walk i) name id.1

def Event.removes (id : ImageId) : Event → Prop
  | .remove id' _ _ => id' = id
  | _ => False

structure Initial (s : Store) : Prop where
  tidy : Tidy s.dir
  recovered : s.recovered = false

/-! ## Single writes -/

section writes

variable {d : Dir} {w : Write} {n source dest : Name}

/-- The names a write changes. -/
def Write.names : Write → List Name
  | .remove name => [name]
  | .rename source dest => [source, dest]
  | .link _ dest => [dest]
  | .write name _ => [name]

/-- The names a write may take away. -/
def Write.drops : Write → List Name
  | .remove name => [name]
  | .rename source _ => [source]
  | .link _ _ => []
  | .write _ _ => []

theorem lookup_apply (h : n ∉ w.names) : (apply d w).lookup n = d.lookup n := by
  cases w with
  | remove name =>
    have hne : n ≠ name := by simpa [Write.names] using h
    exact lookup_eraseMember_ne hne
  | rename source dest =>
    obtain ⟨hs, hd⟩ : n ≠ source ∧ n ≠ dest := by simpa [Write.names] using h
    simp only [apply]
    split
    · rfl
    · rw [lookup_insertMember_ne hd, lookup_eraseMember_ne hs]
  | link source dest =>
    have hne : n ≠ dest := by simpa [Write.names] using h
    simp only [apply]
    split
    · exact lookup_insertMember_ne hne
    · rfl
  | write name bytes =>
    have hne : n ≠ name := by simpa [Write.names] using h
    exact lookup_insertMember_ne hne

/-- The frame rule. -/
theorem lookup_foldl_apply {ws : List Write} (h : ∀ w ∈ ws, n ∉ w.names) :
    (ws.foldl apply d).lookup n = d.lookup n := by
  induction ws generalizing d with
  | nil => rfl
  | cons w ws ih =>
    rw [List.forall_mem_cons] at h
    rw [List.foldl_cons, ih h.2, lookup_apply h.1]

theorem present_congr {t : Dir} (h : t.lookup n = d.lookup n) : present t n = present d n := by
  rw [present, present, h]

theorem present_insertMember {bytes : Bytes} (h : n = dest ∨ present d n = true) :
    present (insertMember dest bytes d) n = true := by
  by_cases hn : n = dest
  · rw [hn, present, lookup_insertMember_self]
    rfl
  · rw [present, lookup_insertMember_ne hn]
    exact h.resolve_left hn

theorem present_apply (h : n ∉ w.drops) (hn : present d n = true) : present (apply d w) n = true := by
  cases w with
  | remove name =>
    have hne : n ≠ name := by simpa [Write.drops] using h
    exact (present_congr (lookup_eraseMember_ne hne)).trans hn
  | rename source dest =>
    have hne : n ≠ source := by simpa [Write.drops] using h
    simp only [apply]
    split
    · exact hn
    · exact present_insertMember (.inr ((present_congr (lookup_eraseMember_ne hne)).trans hn))
  | link source dest =>
    simp only [apply]
    split
    · exact present_insertMember (.inr hn)
    · exact hn
  | write name bytes => exact present_insertMember (.inr hn)

theorem present_foldl_apply {ws : List Write} (h : ∀ w ∈ ws, n ∉ w.drops) (hn : present d n = true) :
    present (ws.foldl apply d) n = true := by
  induction ws generalizing d with
  | nil => exact hn
  | cons w ws ih =>
    rw [List.forall_mem_cons] at h
    exact ih h.2 (present_apply h.1 hn)

theorem present_iff : present d n = true ↔ n ∈ d.names := by
  rw [present, Dir.names]
  constructor
  · intro h
    obtain ⟨bytes, hb⟩ := Option.isSome_iff_exists.mp h
    exact List.mem_map.mpr ⟨_, mem_of_lookup hb, rfl⟩
  · intro h
    obtain ⟨⟨n', bytes⟩, hm, rfl⟩ := List.mem_map.mp h
    rw [← Option.not_isNone, Bool.not_eq_true', ← Bool.not_eq_true, Option.isNone_iff_eq_none, List.lookup_eq_none_iff]
    intro hnone
    simpa using hnone _ hm

theorem present_remove_self : present (apply d (.remove n)) n = false := by
  rw [present, apply, lookup_eraseMember_self]
  rfl

theorem present_of_remove {m : Name} (h : present (apply d (.remove m)) n = true) : present d n = true := by
  by_cases hn : n = m
  · rw [hn, present_remove_self] at h
    cases h
  · rwa [present_congr (lookup_apply (by simpa [Write.names] using hn))] at h

theorem present_rename_source (hne : source ≠ dest) : present (apply d (.rename source dest)) source = false := by
  simp only [apply]
  split
  · rename_i hnone
    rw [present, hnone]
    rfl
  · rw [present, lookup_insertMember_ne hne, lookup_eraseMember_self]
    rfl

end writes

/-! ## Partials -/

section cleanup

variable {d t u v : Dir} {id : ImageId} {walk : Nat → Machines} {listing : List Name}

theorem artifactName_ne {id' : ImageId} {a a' : Artifact} (h : id ≠ id') :
    artifactName id.1 a ≠ artifactName id'.1 a' := by
  intro heq
  exact h (Subtype.ext (artifactName_inj id.2 id'.2 heq).1)

theorem artifactName_ne_self {a a' : Artifact} (h : a ≠ a') : artifactName id.1 a ≠ artifactName id.1 a' := by
  intro heq
  exact h (artifactName_inj id.2 id.2 heq).2

/-- The files of images are the same. -/
def Same (d t : Dir) : Prop := ∀ (id : ImageId) (a : Artifact), t.lookup (artifactName id.1 a) = d.lookup (artifactName id.1 a)

def NoPartials (t : Dir) : Prop := ∀ (key : OperationKey) (x : Part), present t (partialName key.1 x) = false

theorem removeIf_meets {b : Bool} {n : Name} {C Q : Dir → Prop} (hc : C t)
    (hc' : b = true → C (apply t (.remove n))) (hq : b = true → Q (apply t (.remove n))) (hq' : b = false → Q t) :
    (removeIf b n).Meets apply t C Q := by
  cases b with
  | true => exact Script.meets_write hc (hc' rfl) (hq rfl)
  | false => exact Script.meets_done hc (hq' rfl)

theorem Same.removePartial {n : Name} (h : Same d t) (hn : isKnownPartialName n = true) :
    Same d (apply t (.remove n)) := by
  intro id a
  rw [lookup_apply, h]
  rw [Write.names, List.mem_singleton]
  rintro rfl
  rw [isKnownPartialName_artifactName id.2] at hn
  cases hn

/-- The first pass removes every partial and nothing else. -/
theorem removePartials_meets (hl : ∀ n, present d n = true → n ∈ listing) :
    (Script.forEach apply removePartial listing).Meets apply d (Same d) fun t => Same d t ∧ NoPartials t := by
  -- What is left to do covers the partials that are still there.
  let I : List Name → Dir → Prop := fun l t =>
    Same d t ∧ ∀ n, isKnownPartialName n = true → present t n = true → n ∈ l
  have hstart : I listing d := ⟨fun _ _ => rfl, fun n _ hn => hl n hn⟩
  refine (Script.meets_forEach I (fun t ht => ht.1) ?_ hstart).mono (fun _ h => h) ?_
  · intro n l t ⟨hsame, hleft⟩
    refine removeIf_meets hsame (fun hb => hsame.removePartial hb) (fun hb => ⟨hsame.removePartial hb, ?_⟩)
      fun hb => ⟨hsame, ?_⟩
    · intro m hm hp
      rcases List.mem_cons.mp (hleft m hm (present_of_remove hp)) with rfl | h
      · rw [present_remove_self] at hp
        cases hp
      · exact h
    · intro m hm hp
      rcases List.mem_cons.mp (hleft m hm hp) with rfl | h
      · rw [hm] at hb
        cases hb
      · exact h
  · intro t ⟨hsame, hleft⟩
    refine ⟨hsame, fun key x => ?_⟩
    rw [← Bool.not_eq_true]
    intro hp
    exact List.not_mem_nil (hleft _ (isKnownPartialName_partialName key.2 x) hp)

/-! ## Tombstones -/

/-- Only files of the image change, and it gains neither base nor sidecar. -/
structure Touches (id : ImageId) (u v : Dir) : Prop where
  others : ∀ n, (∀ a, n ≠ artifactName id.1 a) → v.lookup n = u.lookup n
  base : present v (artifactName id.1 .base) = true → present u (artifactName id.1 .base) = true
  sidecar : present v (artifactName id.1 .sidecar) = true → present u (artifactName id.1 .sidecar) = true

theorem Touches.refl : Touches id u u := ⟨fun _ _ => rfl, fun h => h, fun h => h⟩

theorem Touches.rename {a b : Artifact} (h : Touches id u v) (hb : b ≠ .base) (hs : b ≠ .sidecar) :
    Touches id u (apply v (.rename (artifactName id.1 a) (artifactName id.1 b))) := by
  have hgain : ∀ c : Artifact, b ≠ c →
      present (apply v (.rename (artifactName id.1 a) (artifactName id.1 b))) (artifactName id.1 c) = true →
        present v (artifactName id.1 c) = true := by
    intro c hc hp
    by_cases hac : a = c
    · subst hac
      rw [present_rename_source (artifactName_ne_self hc.symm)] at hp
      cases hp
    · rwa [present_congr (lookup_apply _)] at hp
      rw [Write.names, List.mem_pair, not_or]
      exact ⟨artifactName_ne_self fun h => hac h.symm, artifactName_ne_self hc.symm⟩
  refine ⟨fun n hn => ?_, fun hp => h.base (hgain _ hb hp), fun hp => h.sidecar (hgain _ hs hp)⟩
  rw [lookup_apply, h.others n hn]
  rw [Write.names, List.mem_pair, not_or]
  exact ⟨hn a, hn b⟩

theorem Touches.remove {a : Artifact} (h : Touches id u v) :
    Touches id u (apply v (.remove (artifactName id.1 a))) := by
  refine ⟨fun n hn => ?_, fun hp => h.base (present_of_remove hp), fun hp => h.sidecar (present_of_remove hp)⟩
  rw [lookup_apply, h.others n hn]
  rw [Write.names, List.mem_singleton]
  exact hn a

theorem moveToTombstone_meets {a b : Artifact} {label : String} (h : Touches id u v) (hb : b ≠ .base)
    (hs : b ≠ .sidecar) : (moveToTombstone (artifactName id.1 a) (artifactName id.1 b) label).Meets apply v
      (Touches id u) (Touches id u) := by
  have hrename := h.rename (a := a) hb hs
  cases hp : present v (artifactName id.1 a) with
  | false => exact (Script.meets_done h h).of_eq (by simp [moveToTombstone, hp])
  | true =>
    cases hq : present v (artifactName id.1 b) with
    | false => exact (Script.meets_write h hrename hrename).of_eq (by simp [moveToTombstone, hp, hq])
    | true => exact (Script.meets_fail h).of_eq (by rw [moveToTombstone, hp, hq])

theorem removeTombstone_meets {a : Artifact} {Q : Dir → Prop} (h : Touches id u v)
    (hq : ∀ t, Touches id u t → present t (artifactName id.1 a) = false →
      (∀ n, present t n = true → present v n = true) → Q t) :
    (removeTombstone (artifactName id.1 a)).Meets apply v (Touches id u) Q := by
  cases hp : present v (artifactName id.1 a) with
  | false => exact (Script.meets_done h (hq v h hp fun _ h => h)).of_eq (by simp [removeTombstone, hp])
  | true =>
    have hr : Touches id u (apply v (.remove (artifactName id.1 a))) := h.remove
    refine (Script.meets_write h hr ?_).of_eq (by simp only [removeTombstone, hp, if_true])
    exact hq _ hr present_remove_self fun n hn => present_of_remove hn

theorem completeStaleRemoval_meets : (completeStaleRemoval id.1).Meets apply u (Touches id u) fun v =>
    Touches id u v ∧ ¬ RemovalStarted v id := by
  unfold completeStaleRemoval
  rw [id.2]
  refine (moveToTombstone_meets .refl (by decide) (by decide)).andThen fun v hv => ?_
  refine (moveToTombstone_meets hv (by decide) (by decide)).andThen fun v hv => ?_
  refine (removeTombstone_meets (Q := fun t => Touches id u t ∧
    present t (artifactName id.1 .sidecarRemoval) = false) hv fun t ht hs _ => ⟨ht, hs⟩).andThen fun v ⟨hv, hs⟩ => ?_
  refine removeTombstone_meets hv fun t ht hb hless => ⟨ht, ?_⟩
  rintro ⟨a, ha, hp⟩
  cases a with
  | baseRemoval =>
    rw [hb] at hp
    cases hp
  | sidecarRemoval =>
    have hp := hless _ hp
    rw [hs] at hp
    cases hp
  | _ => cases ha

theorem not_removalStarted_congr (h : ∀ a : Artifact, u.lookup (artifactName id.1 a) = d.lookup (artifactName id.1 a))
    (hd : ¬ RemovalStarted d id) : ¬ RemovalStarted u id := by
  rintro ⟨a, ha, hp⟩
  rw [present_congr (h a)] at hp
  exact hd ⟨a, ha, hp⟩

/-- Between the directory recovery found and one with removals finished. -/
structure Partway (d u : Dir) : Prop where
  kept : ∀ id, ¬ RemovalStarted d id → ∀ a, u.lookup (artifactName id.1 a) = d.lookup (artifactName id.1 a)
  base : ∀ id : ImageId, present u (artifactName id.1 .base) = true → present d (artifactName id.1 .base) = true
  sidecar : ∀ id : ImageId, present u (artifactName id.1 .sidecar) = true → present d (artifactName id.1 .sidecar) = true

theorem Same.partway (h : Same d t) : Partway d t where
  kept id _ := h id
  base id hp := by rwa [present_congr (h id .base)] at hp
  sidecar id hp := by rwa [present_congr (h id .sidecar)] at hp

theorem Partway.touches (h : Partway d u) (hid : RemovalStarted d id) (ht : Touches id u v) : Partway d v := by
  have hother : ∀ id', id' ≠ id → ∀ a, v.lookup (artifactName id'.1 a) = u.lookup (artifactName id'.1 a) :=
    fun id' hne a => ht.others _ fun b => artifactName_ne hne
  refine ⟨fun id' hn a => ?_, fun id' hp => ?_, fun id' hp => ?_⟩
  · have hne : id' ≠ id := by
      rintro rfl
      exact hn hid
    rw [hother id' hne, h.kept id' hn]
  · by_cases hne : id' = id
    · subst hne
      exact h.base _ (ht.base hp)
    · rw [present_congr (hother id' hne .base)] at hp
      exact h.base _ hp
  · by_cases hne : id' = id
    · subst hne
      exact h.sidecar _ (ht.sidecar hp)
    · rw [present_congr (hother id' hne .sidecar)] at hp
      exact h.sidecar _ hp

theorem NoPartials.touches (h : NoPartials u) (ht : Touches id u v) : NoPartials v := by
  intro key x
  rw [present_congr (ht.others _ fun a => partialName_ne_artifactName id.2)]
  exact h key x

theorem mem_removalIds {x : Name} : x ∈ removalIds listing ↔ ∃ n ∈ listing, removalIdFromName n = some x := by
  simp [removalIds]

/-- Recovery knows the removals that have started, and no others. -/
theorem mem_removalIds_iff (hl : ∀ n, n ∈ listing ↔ present d n = true) (x : Name) :
    x ∈ removalIds listing ↔ ∃ id : ImageId, id.1 = x ∧ RemovalStarted d id := by
  rw [mem_removalIds]
  constructor
  · rintro ⟨n, hn, hx⟩
    obtain ⟨hid, a, ha, rfl⟩ := removalIdFromName_some hx
    exact ⟨⟨x, hid⟩, rfl, a, ha, (hl _).mp hn⟩
  · rintro ⟨id, rfl, a, ha, hp⟩
    exact ⟨_, (hl _).mpr hp, removalIdFromName_artifactName id.2 ha⟩

/-- The second pass finishes every removal that had started. -/
theorem finishRemovals_meets (hl : ∀ n, n ∈ listing ↔ present d n = true) (hsame : Same d t) (hno : NoPartials t) :
    (Script.forEach apply completeStaleRemoval (removalIds listing)).Meets apply t (Partway d) fun u =>
      Partway d u ∧ NoPartials u ∧ ∀ id, ¬ RemovalStarted u id := by
  -- The tombstones still there belong to the removals left to do, all of which had started.
  let I : List Name → Dir → Prop := fun l u => Partway d u ∧ NoPartials u ∧
    (∀ id, RemovalStarted u id → id.1 ∈ l) ∧ ∀ x ∈ l, ∃ id : ImageId, id.1 = x ∧ RemovalStarted d id
  have hstart : I (removalIds listing) t := by
    refine ⟨hsame.partway, hno, fun id hid => ?_, fun x hx => (mem_removalIds_iff hl x).mp hx⟩
    obtain ⟨a, ha, hp⟩ := hid
    rw [present_congr (hsame id a)] at hp
    exact (mem_removalIds_iff hl _).mpr ⟨id, rfl, a, ha, hp⟩
  refine (Script.meets_forEach I (fun u hu => hu.1) ?_ hstart).mono (fun _ h => h) ?_
  · intro x l u ⟨hpart, hno, hleft, hstarted⟩
    rw [List.forall_mem_cons] at hstarted
    obtain ⟨⟨id, rfl, hid⟩, hrest⟩ := hstarted
    refine completeStaleRemoval_meets.mono (fun v hv => hpart.touches hid hv) ?_
    intro v ⟨hv, hdone⟩
    refine ⟨hpart.touches hid hv, hno.touches hv, fun id' hid' => ?_, hrest⟩
    have hne : id' ≠ id := by
      rintro rfl
      exact hdone hid'
    obtain ⟨a, ha, hp⟩ := hid'
    rw [present_congr (hv.others _ fun b => artifactName_ne hne)] at hp
    refine (List.mem_cons.mp (hleft id' ⟨a, ha, hp⟩)).resolve_left fun h => hne (Subtype.ext h)
  · intro u ⟨hpart, hno, hleft, _⟩
    exact ⟨hpart, hno, fun id hid => List.not_mem_nil (hleft id hid)⟩

/-! ## Incomplete pairs -/

/-- The references, if they can be read at all, name the image. -/
def Guarded (walk : Nat → Machines) (id : Name) : Prop :=
  ∀ references, imageReferences walk = .ok references → id ∈ references.map Prod.fst

def ImagePairPresence.has (presence : ImagePairPresence) : ImageArtifact → Bool
  | .base => presence.base
  | .sidecar => presence.sidecar
  | .sidecarTemp => presence.sidecarTemp

theorem has_note {presence : ImagePairPresence} {a b : ImageArtifact} :
    (presence.note a).has b = (presence.has b || decide (b = a)) := by
  cases a <;> cases b <;> simp [ImagePairPresence.note, ImagePairPresence.has]

/-- What has been read of one file of one image. -/
def noted (pairs : List (Name × ImagePairPresence)) (id : Name) (a : ImageArtifact) : Bool :=
  ((pairs.lookup id).getD {}).has a

theorem noted_insertMember {pairs : List (Name × ImagePairPresence)} {x y : Name} {a b : ImageArtifact} :
    noted (insertMember x (((pairs.lookup x).getD {}).note a) pairs) y b =
      (noted pairs y b || decide ((y, b) = (x, a))) := by
  by_cases hxy : y = x
  · subst hxy
    simp [noted, lookup_insertMember_self, has_note]
  · simp [noted, lookup_insertMember_ne hxy, hxy]

theorem readPairs_ok {pairs result : List (Name × ImagePairPresence)} {names : List Name}
    (h : readPairs pairs names = .ok result) (hsorted : MembersSorted pairs)
    (hvalid : ∀ x ∈ pairs, validateImageId x.1 = .ok ()) :
    MembersSorted result ∧ (∀ x ∈ result, validateImageId x.1 = .ok ()) ∧
      ∀ id a, noted result id a = true ↔
        noted pairs id a = true ∨ ∃ n ∈ names, imageArtifactFromName n = .ok (some (id, a)) := by
  induction names generalizing pairs with
  | nil =>
    cases h
    exact ⟨hsorted, hvalid, by simp⟩
  | cons n names ih =>
    rw [readPairs] at h
    split at h
    · cases h
    · rename_i hn
      obtain ⟨hs, hv, hnoted⟩ := ih h hsorted hvalid
      refine ⟨hs, hv, fun id a => ?_⟩
      rw [hnoted id a]
      simp [hn]
    · rename_i x b hn
      have hx := (imageArtifactFromName_some hn).1
      obtain ⟨hs, hv, hnoted⟩ := ih h hsorted.insertMember fun y hy => by
        rcases mem_insertMember hy with rfl | hy
        · exact hx
        · exact hvalid y hy
      refine ⟨hs, hv, fun id a => ?_⟩
      rw [hnoted id a, noted_insertMember]
      simp only [Bool.or_eq_true, decide_eq_true_eq, List.exists_mem_cons_iff, hn, Except.ok.injEq, Option.some.injEq]
      rw [or_assoc, eq_comm (a := (id, a))]

/-- The presence read for an image is that of its files. -/
def Accurate (d : Dir) (pair : Name × ImagePairPresence) : Prop :=
  validateImageId pair.1 = .ok () ∧ ∀ a : ImageArtifact, pair.2.has a = present d (artifactName pair.1 a.artifact)

theorem readPairs_accurate {pairs : List (Name × ImagePairPresence)} (h : readPairs [] d.names = .ok pairs) :
    (∀ pair ∈ pairs, Accurate d pair) ∧
      ∀ id : ImageId, id.1 ∉ pairs.map Prod.fst → ∀ a : ImageArtifact, present d (artifactName id.1 a.artifact) = false := by
  obtain ⟨hsorted, hvalid, hnoted⟩ := readPairs_ok h List.Pairwise.nil (by simp)
  have hiff : ∀ (id : Name) (a : ImageArtifact), validateImageId id = .ok () →
      (noted pairs id a = true ↔ present d (artifactName id a.artifact) = true) := by
    intro id a hid
    rw [hnoted, present_iff]
    constructor
    · rintro (hn | ⟨n, hn, hname⟩)
      · cases a <;> cases hn
      · rw [← (imageArtifactFromName_some hname).2]
        exact hn
    · exact fun hn => .inr ⟨_, hn, imageArtifactFromName_artifactName hid a⟩
  refine ⟨fun pair hp => ⟨hvalid pair hp, fun a => ?_⟩, fun id hid a => ?_⟩
  · have hlookup : pairs.lookup pair.1 = some pair.2 := lookup_of_mem hsorted hp
    rw [Bool.eq_iff_iff, ← hiff pair.1 a (hvalid pair hp), noted, hlookup]
    rfl
  · have hlookup : pairs.lookup id.1 = none := by
      rw [List.lookup_eq_none_iff]
      intro x hx
      rw [bne_iff_ne]
      rintro heq
      exact hid (List.mem_map.mpr ⟨x, hx, heq.symm⟩)
    rw [← Bool.not_eq_true, ← hiff id.1 a id.2, noted, hlookup]
    cases a <;> simp [ImagePairPresence.has]

/-- Between the directory with removals finished and one with pairs recovered. -/
structure Recovering (walk : Nat → Machines) (d t : Dir) : Prop where
  less : ∀ n, present t n = true → present d n = true
  pair : ∀ id, Stored d id → ∀ a, a = .base ∨ a = .sidecar →
    t.lookup (artifactName id.1 a) = d.lookup (artifactName id.1 a)
  guarded : ∀ id, ¬ Stored d id → Guarded walk id.1 → ∀ a,
    t.lookup (artifactName id.1 a) = d.lookup (artifactName id.1 a)

theorem Recovering.refl : Recovering walk d d := ⟨fun _ h => h, fun _ _ _ _ => rfl, fun _ _ _ _ => rfl⟩

theorem Recovering.remove {a : Artifact} (h : Recovering walk d t) (hpair : Stored d id → a ≠ .base ∧ a ≠ .sidecar)
    (hguarded : Stored d id ∨ ¬ Guarded walk id.1) : Recovering walk d (apply t (.remove (artifactName id.1 a))) := by
  have hother : ∀ (id' : ImageId) (b : Artifact), (id' ≠ id ∨ b ≠ a) →
      (apply t (.remove (artifactName id.1 a))).lookup (artifactName id'.1 b) = t.lookup (artifactName id'.1 b) := by
    intro id' b hne
    refine lookup_apply ?_
    rw [Write.names, List.mem_singleton]
    intro heq
    obtain ⟨hid, hb⟩ := artifactName_inj id'.2 id.2 heq
    exact hne.elim (fun h => h (Subtype.ext hid)) fun h => h hb
  refine ⟨fun n hn => h.less n (present_of_remove hn), fun id' hs b hb => ?_, fun id' hs hg b => ?_⟩
  · rw [hother, h.pair id' hs b hb]
    by_cases hid : id' = id
    · subst hid
      obtain ⟨h1, h2⟩ := hpair hs
      refine .inr fun hba => ?_
      subst hba
      exact hb.elim h1 h2
    · exact .inl hid
  · rw [hother, h.guarded id' hs hg b]
    refine .inl ?_
    rintro rfl
    exact hguarded.elim hs fun h => h hg

theorem Recovering.present_false {n : Name} (h : Recovering walk d t) (hn : present d n = false) :
    present t n = false := by
  rw [← Bool.not_eq_true]
  intro ht
  rw [h.less n ht] at hn
  cases hn

/-- The image has no temporary file and both or none of its files. -/
def Settled (t : Dir) (id : ImageId) : Prop :=
  present t (artifactName id.1 .sidecarTemp) = false ∧
    present t (artifactName id.1 .base) = present t (artifactName id.1 .sidecar)

theorem Settled.remove {id' : ImageId} {a : Artifact} (h : Settled t id') (hne : id' ≠ id) :
    Settled (apply t (.remove (artifactName id.1 a))) id' := by
  have hother : ∀ b, present (apply t (.remove (artifactName id.1 a))) (artifactName id'.1 b) =
      present t (artifactName id'.1 b) := by
    intro b
    refine present_congr (lookup_apply ?_)
    rw [Write.names, List.mem_singleton]
    exact artifactName_ne hne
  rw [Settled, hother, hother, hother]
  exact h

/-- A file of an image whose presence was read, removed if it was there. -/
theorem removeIf_recovering {a : Artifact} {b : Bool} {P : ImageId → Prop} (h : Recovering walk d t)
    (hset : ∀ id', P id' → id' ≠ id ∧ Settled t id') (hb : b = present d (artifactName id.1 a))
    (hpair : Stored d id → a ≠ .base ∧ a ≠ .sidecar) (hguarded : Stored d id ∨ ¬ Guarded walk id.1)
    {Q : Dir → Prop} (hq : ∀ u, Recovering walk d u → (∀ id', P id' → id' ≠ id ∧ Settled u id') →
      present u (artifactName id.1 a) = false → (∀ n, present u n = true → present t n = true) → Q u) :
    (removeIf b (artifactName id.1 a)).Meets apply t (Recovering walk d) Q := by
  have hr := h.remove hpair hguarded
  refine removeIf_meets h (fun _ => hr) (fun _ => ?_) fun hf => ?_
  · exact hq _ hr (fun id' hid' => ⟨(hset id' hid').1, (hset id' hid').2.remove (hset id' hid').1⟩) present_remove_self
      fun n hn => present_of_remove hn
  · rw [hf] at hb
    exact hq t h hset (h.present_false hb.symm) fun _ h => h

theorem referencing_eq_nil {references : List (Name × String)} {x : Name} (h : referencing references x = []) :
    x ∉ references.map Prod.fst := by
  intro hx
  obtain ⟨⟨y, name⟩, hm, rfl⟩ := List.mem_map.mp hx
  have hname : name ∈ referencing references y := by
    rw [referencing, List.mem_insertionSort, List.mem_dedup, List.mem_map]
    exact ⟨(y, name), List.mem_filter.mpr ⟨hm, by simp⟩, rfl⟩
  rw [h] at hname
  cases hname

theorem Accurate.complete_iff {presence : ImagePairPresence} (h : Accurate d (id.1, presence)) :
    presence.complete = true ↔ Stored d id := by
  have hb := h.2 .base
  have hs := h.2 .sidecar
  rw [ImagePairPresence.complete, Bool.and_eq_true]
  exact Iff.and (Bool.eq_iff_iff.mp hb) (Bool.eq_iff_iff.mp hs)

theorem recoverPair_meets {references : List (Name × String)} {presence : ImagePairPresence} {P : ImageId → Prop}
    (h : Recovering walk d t) (hset : ∀ id', P id' → id' ≠ id ∧ Settled t id') (hacc : Accurate d (id.1, presence))
    (href : presence.complete = false → imageReferences walk = .ok references) :
    (recoverPair references (id.1, presence)).Meets apply t (Recovering walk d) fun u =>
      Recovering walk d u ∧ (∀ id', P id' → Settled u id') ∧ Settled u id := by
  unfold recoverPair
  dsimp only
  split
  · exact Script.meets_fail h
  rename_i hspare
  have hguarded : Stored d id ∨ ¬ Guarded walk id.1 := by
    cases hc : presence.complete with
    | true => exact .inl (hacc.complete_iff.mp hc)
    | false =>
      refine .inr fun hg => ?_
      have hnil : referencing references id.1 = [] := by simpa [hc] using hspare
      exact referencing_eq_nil hnil (hg references (href hc))
  refine Script.Meets.andThen (removeIf_recovering (Q := fun u => Recovering walk d u ∧
    (∀ id', P id' → id' ≠ id ∧ Settled u id') ∧ present u (artifactName id.1 .sidecarTemp) = false)
    h hset (hacc.2 .sidecarTemp) (fun _ => ⟨by decide, by decide⟩) hguarded fun u hu hset ht _ => ⟨hu, hset, ht⟩) ?_
  intro u ⟨hu, hset, htemp⟩
  split
  · -- A complete pair keeps both of its files.
    rename_i hc
    have hstored := hacc.complete_iff.mp hc
    refine Script.meets_done hu ⟨hu, fun id' hid' => (hset id' hid').2, htemp, ?_⟩
    rw [present_congr (hu.pair id hstored .base (.inl rfl)), present_congr (hu.pair id hstored .sidecar (.inr rfl)),
      hstored.1, hstored.2]
  · rename_i hc
    have hpair : ∀ a : Artifact, Stored d id → a ≠ .base ∧ a ≠ .sidecar := fun _ hs =>
      absurd (hacc.complete_iff.mpr hs) hc
    refine Script.Meets.andThen (removeIf_recovering (Q := fun v => Recovering walk d v ∧
      (∀ id', P id' → id' ≠ id ∧ Settled v id') ∧ present v (artifactName id.1 .sidecarTemp) = false ∧
        present v (artifactName id.1 .sidecar) = false) hu hset (hacc.2 .sidecar) (hpair _) hguarded
      fun v hv hset hs hless => ⟨hv, hset, ?_, hs⟩) ?_
    · rw [← Bool.not_eq_true] at htemp ⊢
      exact fun h => htemp (hless _ h)
    intro v ⟨hv, hset, htemp, hside⟩
    refine removeIf_recovering (a := .base) hv hset (hacc.2 .base) (hpair _) hguarded fun w hw hset hb hless =>
      ⟨hw, fun id' hid' => (hset id' hid').2, ?_, ?_⟩
    · rw [← Bool.not_eq_true] at htemp ⊢
      exact fun h => htemp (hless _ h)
    · rw [hb, eq_comm, ← Bool.not_eq_true]
      intro h
      rw [hless _ h] at hside
      cases hside

/-- The third pass settles every image. -/
theorem recoverIncompletePairs_meets :
    (recoverIncompletePairs walk).Meets apply d (Recovering walk d) fun t =>
      Recovering walk d t ∧ ∀ id, Settled t id := by
  cases hpairs : readPairs [] d.names with
  | error e => exact (Script.meets_fail .refl).of_eq (by rw [recoverIncompletePairs, hpairs])
  | ok pairs =>
    obtain ⟨hacc, hrest⟩ := readPairs_accurate hpairs
    cases href : if pairs.any fun pair => !pair.2.complete then imageReferences walk else .ok [] with
    | error e =>
      have heq : recoverIncompletePairs walk d = Script.fail e d := by
        rw [recoverIncompletePairs, hpairs]
        simp only [href]
      exact (Script.meets_fail .refl).of_eq heq
    | ok references =>
      have href' : ∀ pair ∈ pairs, pair.2.complete = false → imageReferences walk = .ok references := by
        intro pair hp hc
        rwa [if_pos (List.any_eq_true.mpr ⟨pair, hp, by rw [hc]; rfl⟩)] at href
      let I : List (Name × ImagePairPresence) → Dir → Prop := fun l t => Recovering walk d t ∧
        (∀ id : ImageId, id.1 ∉ l.map Prod.fst → Settled t id) ∧ ∀ pair ∈ l, pair ∈ pairs
      have hstart : I pairs d := by
        refine ⟨.refl, fun id hid => ⟨hrest id hid .sidecarTemp, ?_⟩, fun _ h => h⟩
        exact (hrest id hid .base).trans (hrest id hid .sidecar).symm
      have heq : recoverIncompletePairs walk d = Script.forEach apply (recoverPair references) pairs d := by
        rw [recoverIncompletePairs, hpairs]
        simp only [href]
      refine ((Script.meets_forEach I (fun t ht => ht.1) ?_ hstart).mono (fun _ h => h) ?_).of_eq heq
      · rintro ⟨x, presence⟩ l t ⟨ht, hset, hleft⟩
        rw [List.forall_mem_cons] at hleft
        have hx := hacc _ hleft.1
        obtain ⟨id, rfl⟩ : ∃ id : ImageId, id.1 = x := ⟨⟨x, hx.1⟩, rfl⟩
        refine (recoverPair_meets (P := fun id' => id'.1 ∉ id.1 :: l.map Prod.fst) ht
          (fun id' hid' => ⟨?_, hset id' hid'⟩) hx (href' _ hleft.1)).mono (fun _ h => h) ?_
        · rintro rfl
          exact hid' List.mem_cons_self
        · intro u ⟨hu, hset, hself⟩
          refine ⟨hu, fun id' hid' => ?_, hleft.2⟩
          by_cases heq : id' = id
          · rwa [heq]
          · refine hset id' fun hm => ?_
            exact (List.mem_cons.mp hm).elim (fun h => heq (Subtype.ext h)) hid'
      · intro t ⟨ht, hset, _⟩
        exact ⟨ht, fun id => hset id List.not_mem_nil⟩

/-! ## The whole of recovery -/

/-- What recovery keeps wherever it stops. -/
structure Kept (walk : Nat → Machines) (d t : Dir) : Prop where
  base : ∀ id : ImageId, present t (artifactName id.1 .base) = true → present d (artifactName id.1 .base) = true
  sidecar : ∀ id : ImageId, present t (artifactName id.1 .sidecar) = true → present d (artifactName id.1 .sidecar) = true
  tombstones : ∀ id, ¬ RemovalStarted d id → ¬ RemovalStarted t id
  pair : ∀ id, ¬ RemovalStarted d id → Stored d id → ∀ a, a = .base ∨ a = .sidecar →
    t.lookup (artifactName id.1 a) = d.lookup (artifactName id.1 a)
  guarded : ∀ id, ¬ RemovalStarted d id → ¬ Stored d id → Guarded walk id.1 → ∀ a,
    t.lookup (artifactName id.1 a) = d.lookup (artifactName id.1 a)

theorem Partway.kept_all (h : Partway d t) : Kept walk d t where
  base := h.base
  sidecar := h.sidecar
  tombstones id hid := not_removalStarted_congr (h.kept id hid) hid
  pair id hid _ a _ := h.kept id hid a
  guarded id hid _ _ := h.kept id hid

theorem stored_congr (h : ∀ a : Artifact, u.lookup (artifactName id.1 a) = d.lookup (artifactName id.1 a)) :
    Stored u id ↔ Stored d id := by
  rw [Stored, Stored, present_congr (h .base), present_congr (h .sidecar)]

theorem Partway.recovering (h : Partway d u) (hr : Recovering walk u t) : Kept walk d t where
  base id hp := h.base id (hr.less _ hp)
  sidecar id hp := h.sidecar id (hr.less _ hp)
  tombstones id hid := by
    rintro ⟨a, ha, hp⟩
    exact not_removalStarted_congr (h.kept id hid) hid ⟨a, ha, hr.less _ hp⟩
  pair id hid hs a ha := by
    rw [hr.pair id ((stored_congr (h.kept id hid)).mpr hs) a ha, h.kept id hid]
  guarded id hid hs hg a := by
    rw [hr.guarded id (fun hu => hs ((stored_congr (h.kept id hid)).mp hu)) hg a, h.kept id hid]

/-- **Recovery**: what it keeps wherever it stops, and what it establishes. -/
theorem cleanupStalePartials_meets (hl : listing.Perm d.names) :
    (cleanupStalePartials listing walk).Meets apply d (Kept walk d) Tidy := by
  have hmem : ∀ n, n ∈ listing ↔ present d n = true := fun n => hl.mem_iff.trans present_iff.symm
  unfold cleanupStalePartials
  refine ((removePartials_meets fun n hn => (hmem n).mpr hn).mono (fun _ h => h.partway.kept_all) fun _ h => h).andThen ?_
  intro t ⟨hsame, hno⟩
  refine ((finishRemovals_meets hmem hsame hno).mono (fun _ h => h.kept_all) fun _ h => h).andThen ?_
  intro u ⟨hpart, hno, htombs⟩
  refine recoverIncompletePairs_meets.mono (fun v hv => hpart.recovering hv) ?_
  intro v ⟨hv, hset⟩
  refine ⟨fun key x => hv.present_false (hno key x), fun id => (hset id).1, fun id => ?_, fun id => (hset id).2⟩
  rintro ⟨a, ha, hp⟩
  exact htombs id ⟨a, ha, hv.less _ hp⟩

end cleanup

/-! ## The walk -/

section walk

variable {walk : Nat → Machines} {name : String} {x : Name}

/-- A reference that is there at every read is found. -/
theorem readMachines_finds (hdot : References.dotted name = false) {i : Nat} {names : List String}
    {references : List (Name × String)} (h : readMachines walk i names = .ok references) (hname : name ∈ names)
    (href : ∀ j, i < j → j ≤ i + names.length → Referenced (walk j) name x) : x ∈ references.map Prod.fst := by
  induction names generalizing i references with
  | nil => cases hname
  | cons n names ih =>
    rw [readMachines] at h
    split at h
    · cases h
    · rename_i ids hids
      obtain ⟨rest, hrest, heq⟩ := Res.bind_ok h
      cases heq
      rcases List.mem_cons.mp hname with rfl | hname
      · obtain ⟨ids', hids', hx⟩ := href (i + 1) (by omega) (by simp only [List.length_cons]; omega)
        rw [hids] at hids'
        cases hids'
        rw [if_neg (by rw [hdot]; decide), List.map_append, List.mem_append]
        exact .inl (List.mem_map.mpr ⟨_, List.mem_map.mpr ⟨x, hx, rfl⟩, rfl⟩)
      · have hx := ih hrest hname fun j hj hj' => href j (by omega) (by simp only [List.length_cons]; omega)
        split
        · exact hx
        · rw [List.map_append, List.mem_append]
          exact .inr hx

theorem imageReferences_finds (hdot : References.dotted name = false)
    (href : ∀ i ≤ (walk 0).length, Referenced (walk i) name x) : Guarded walk x := by
  intro references h
  obtain ⟨ids, hids, -⟩ := href 0 (Nat.zero_le _)
  refine readMachines_finds hdot h ?_ fun j _ hj => href j ?_
  · rw [List.mem_insertionSort]
    exact List.mem_map.mpr ⟨_, mem_of_lookup hids, rfl⟩
  · rw [List.length_insertionSort, List.length_map] at hj
    omega

end walk

/-! ## Pulls -/

namespace Pull

variable {p : Pull} {d : Dir}

/-- The write changes only files of the pull itself. -/
def Owns (p : Pull) (w : Write) : Prop :=
  ∀ n ∈ w.names, (∃ x, n = p.part x) ∨ ∃ a : Artifact, a.isRemoval = false ∧ n = p.file a

/-- The write leaves the base alone and does not take the sidecar away. -/
def Refreshes (p : Pull) (w : Write) : Prop := p.file .base ∉ w.names ∧ p.file .sidecar ∉ w.drops

theorem owns_part {x : Part} {w : Write} (h : w.names = [p.part x]) : p.Owns w := by
  intro n hn
  rw [h, List.mem_singleton] at hn
  exact .inl ⟨x, hn⟩

theorem owns_file {a b : Artifact} {w : Write} (h : ∀ n ∈ w.names, n = p.file a ∨ n = p.file b)
    (ha : a.isRemoval = false) (hb : b.isRemoval = false) : p.Owns w := by
  intro n hn
  rcases h n hn with h | h
  · exact .inr ⟨a, ha, h⟩
  · exact .inr ⟨b, hb, h⟩

theorem refreshes_part {x : Part} {w : Write} (h : w.names = [p.part x]) (hd : ∀ n ∈ w.drops, n ∈ w.names) :
    p.Refreshes w := by
  have hne : ∀ a : Artifact, p.file a ∉ w.names := by
    intro a ha
    rw [h, List.mem_singleton] at ha
    exact partialName_ne_artifactName p.id.2 ha.symm
  exact ⟨hne _, fun hd' => hne _ (hd _ hd')⟩

theorem writeSidecar_owns : ∀ w ∈ p.writeSidecar, p.Owns w := by
  simp only [writeSidecar, List.forall_mem_cons, List.not_mem_nil, false_imp_iff, implies_true, and_true]
  refine ⟨owns_file (a := .sidecarTemp) (b := .sidecar) ?_ rfl rfl, owns_file (a := .sidecarTemp) (b := .sidecar) ?_ rfl rfl,
    owns_file (a := .sidecarTemp) (b := .sidecar) ?_ rfl rfl⟩ <;> simp [Write.names]

theorem writeSidecar_refreshes : ∀ w ∈ p.writeSidecar, p.Refreshes w := by
  have hbt : p.file .base ≠ p.file .sidecarTemp := artifactName_ne_self (by decide)
  have hbs : p.file .base ≠ p.file .sidecar := artifactName_ne_self (by decide)
  have hst : p.file .sidecar ≠ p.file .sidecarTemp := artifactName_ne_self (by decide)
  simp [writeSidecar, Refreshes, Write.names, Write.drops, hbt, hbs, hst]

theorem publish_owns {x : Part} : ∀ w ∈ p.publish x, p.Owns w := by
  simp only [publish, List.forall_mem_append, List.forall_mem_cons, List.not_mem_nil, false_imp_iff, implies_true,
    and_true]
  refine ⟨⟨owns_file (a := .base) (b := .base) ?_ rfl rfl, owns_part rfl⟩, writeSidecar_owns⟩
  simp [Write.names]

theorem existingIdentity_owns {rest : List Write} (h : ∀ w ∈ rest, p.Owns w) : ∀ w ∈ p.existingIdentity d rest, p.Owns w := by
  unfold existingIdentity
  split
  · exact h
  · split
    · exact writeSidecar_owns
    · simp
  · simp

/-- A pull stays with its own files. -/
theorem writes_owns : ∀ w ∈ p.writes d, p.Owns w := by
  unfold writes
  split
  · rw [List.forall_mem_append]
    refine ⟨?_, existingIdentity_owns ?_⟩
    · simp only [List.forall_mem_cons, List.not_mem_nil, false_imp_iff, implies_true, and_true]
      exact ⟨owns_part rfl, owns_part rfl, owns_part rfl⟩
    · split
      · simp only [List.forall_mem_append, List.forall_mem_cons, List.not_mem_nil, false_imp_iff, implies_true, and_true]
        exact ⟨publish_owns, owns_part rfl, owns_part rfl⟩
      · simp only [List.forall_mem_append, List.forall_mem_cons, List.not_mem_nil, false_imp_iff, implies_true, and_true]
        exact ⟨⟨owns_part rfl, publish_owns⟩, owns_part rfl, owns_part rfl⟩
  · refine existingIdentity_owns ?_
    simp only [List.forall_mem_append, List.forall_mem_cons, List.forall_mem_map, List.not_mem_nil, false_imp_iff,
      implies_true, and_true]
    refine ⟨⟨⟨⟨⟨⟨fun x _ => owns_part rfl, fun x _ => owns_part rfl⟩, ?_⟩, fun i _ => owns_part rfl⟩, owns_part rfl⟩,
      publish_owns⟩, owns_part rfl⟩
    exact ⟨owns_part rfl, owns_part rfl, owns_part rfl, owns_part rfl⟩

theorem existingIdentity_refreshes {rest : List Write} (h : Stored d p.id) :
    ∀ w ∈ p.existingIdentity d rest, p.Refreshes w := by
  rw [existingIdentity, file, file, h.1, h.2]
  dsimp only
  split
  · exact writeSidecar_refreshes
  · simp

/-- A pull that finds its image stored refreshes it. -/
theorem writes_refreshes (h : Stored d p.id) : ∀ w ∈ p.writes d, p.Refreshes w := by
  unfold writes
  split
  · rw [List.forall_mem_append]
    refine ⟨?_, existingIdentity_refreshes h⟩
    simp only [List.forall_mem_cons, List.not_mem_nil, false_imp_iff, implies_true, and_true]
    exact ⟨refreshes_part rfl (by simp [Write.names, Write.drops]), refreshes_part rfl (by simp [Write.names, Write.drops]),
      refreshes_part rfl (by simp [Write.drops])⟩
  · exact existingIdentity_refreshes h

theorem tracked_owns {n : Name} (h : n ∈ p.tracked d) : p.Owns (.remove n) := by
  unfold tracked at h
  rw [List.mem_append] at h
  rcases h with h | h
  · have hfile : n = p.file .sidecarTemp ∨ n = p.file .sidecar ∨ n = p.file .base := by
      split at h
      · simpa using h
      · exact .inl (by simpa using h)
    rcases hfile with rfl | rfl | rfl
    · exact owns_file (a := .sidecarTemp) (b := .base) (by simp [Write.names]) rfl rfl
    · exact owns_file (a := .sidecar) (b := .base) (by simp [Write.names]) rfl rfl
    · exact owns_file (a := .base) (b := .base) (by simp [Write.names]) rfl rfl
  · rw [List.mem_reverse, List.mem_map] at h
    obtain ⟨x, -, rfl⟩ := h
    exact owns_part rfl

theorem tracked_refreshes {n : Name} (hs : Stored d p.id) (h : n ∈ p.tracked d) : p.Refreshes (.remove n) := by
  rw [tracked, file, file, hs.1, hs.2, List.mem_append] at h
  rcases h with h | h
  · rw [List.mem_singleton] at h
    subst h
    have hne : ∀ {a b : Artifact}, a ≠ b → p.file a ≠ p.file b := artifactName_ne_self
    exact ⟨by simpa [Write.names] using hne (by decide), by simpa [Write.drops] using hne (by decide)⟩
  · rw [List.mem_reverse, List.mem_map] at h
    obtain ⟨x, -, rfl⟩ := h
    exact refreshes_part rfl (by simp [Write.names, Write.drops])

end Pull

/-! ## Steps -/

section steps

variable {s t : Store} {id : ImageId} {bytes : Bytes} {listing : List Name} {walk : Nat → Machines} {stop : Option Nat}

theorem Complete.stored {d : Dir} (h : Complete d id bytes) : Stored d id := by
  refine ⟨?_, h.2⟩
  rw [present, h.1]
  rfl

theorem Complete.congr {d u : Dir} (h : Complete d id bytes)
    (hu : ∀ a, a = .base ∨ a = .sidecar → u.lookup (artifactName id.1 a) = d.lookup (artifactName id.1 a)) :
    Complete u id bytes :=
  ⟨(hu .base (.inl rfl)).trans h.1, (present_congr (hu .sidecar (.inr rfl))).trans h.2⟩

theorem step_cleanup (hs : step s (.cleanup listing walk stop) = some t) :
    Kept walk s.dir t.dir ∧ t.machines = walk (walk 0).length ∧ (t.recovered = true → Tidy t.dir) := by
  simp only [step] at hs
  split at hs
  · rename_i hl
    cases hs
    have hmeets : (cleanupStalePartials listing walk).Meets apply s.dir (Kept walk s.dir) Tidy :=
      cleanupStalePartials_meets hl
    cases stop with
    | none =>
      have hend := hmeets.stops _ (take_mem_stops (cleanupStalePartials listing walk s.dir).1.length)
      rw [List.take_length] at hend
      refine ⟨hend, rfl, fun hok => hmeets.done ?_⟩
      obtain ⟨⟨⟩, hok⟩ := Res.exists_ok (by simpa using hok)
      exact hok
    | some k => exact ⟨hmeets.stops _ (take_mem_stops k), rfl, fun hok => by simp at hok⟩
  · cases hs

theorem step_pull {p : Pull} {k : Nat} {swept : List Name} (hs : step s (.pull p k swept) = some t) :
    s.recovered = true ∧ t.recovered = false ∧ ∃ ws : List Write, t.dir = ws.foldl apply s.dir ∧ (∀ w ∈ ws, p.Owns w) ∧
      (Stored s.dir p.id → ∀ w ∈ ws, p.Refreshes w) := by
  simp only [step] at hs
  split at hs
  · rename_i hcond
    rw [Bool.and_eq_true, decide_eq_true_eq] at hcond
    cases hs
    refine ⟨hcond.1, rfl, _, rfl, ?_, fun hst => ?_⟩
    · rw [List.forall_mem_append, List.forall_mem_map]
      exact ⟨fun w hw => Pull.writes_owns w (List.mem_of_mem_take hw), fun n hn => Pull.tracked_owns (hcond.2.subset hn)⟩
    · rw [List.forall_mem_append, List.forall_mem_map]
      exact ⟨fun w hw => Pull.writes_refreshes hst w (List.mem_of_mem_take hw),
        fun n hn => Pull.tracked_refreshes hst (hcond.2.subset hn)⟩
  · cases hs

theorem Pull.Owns.not_mem {p : Pull} {w : Write} {a : Artifact} (h : p.Owns w) (ha : p.id ≠ id ∨ a.isRemoval = true) :
    artifactName id.1 a ∉ w.names := by
  intro hn
  rcases h _ hn with ⟨x, hx⟩ | ⟨b, hb, hx⟩
  · exact partialName_ne_artifactName id.2 hx.symm
  · obtain ⟨hid, rfl⟩ := artifactName_inj id.2 p.id.2 hx
    rcases ha with ha | ha
    · exact ha (Subtype.ext hid.symm)
    · rw [hb] at ha
      cases ha

theorem removePair_names {w : Write} (hw : w ∈ removePair id) {n : Name} (hn : n ∈ w.names) :
    ∃ a, n = artifactName id.1 a := by
  simp only [removePair, List.mem_cons, List.not_mem_nil, or_false] at hw
  rcases hw with rfl | rfl | rfl | rfl
  · simp only [Write.names, List.mem_cons, List.not_mem_nil, or_false] at hn
    exact hn.elim (fun h => ⟨_, h⟩) fun h => ⟨_, h⟩
  · simp only [Write.names, List.mem_cons, List.not_mem_nil, or_false] at hn
    exact hn.elim (fun h => ⟨_, h⟩) fun h => ⟨_, h⟩
  · exact ⟨_, List.mem_singleton.mp hn⟩
  · exact ⟨_, List.mem_singleton.mp hn⟩

/-- Once a removal has staged the sidecar there is no pair. -/
theorem removePair_sidecar {d : Dir} (k : Nat) :
    present (((removePair id).take (k + 1)).foldl apply d) (artifactName id.1 .sidecar) = false := by
  rw [removePair, List.take_succ_cons, List.foldl_cons]
  have hb : artifactName id.1 .sidecar ≠ artifactName id.1 .base := artifactName_ne_self (by decide)
  have hbt : artifactName id.1 .sidecar ≠ artifactName id.1 .baseRemoval := artifactName_ne_self (by decide)
  have hst : artifactName id.1 .sidecar ≠ artifactName id.1 .sidecarRemoval := artifactName_ne_self (by decide)
  have hrest : ∀ w ∈ [Write.rename (artifactName id.1 .base) (artifactName id.1 .baseRemoval),
      .remove (artifactName id.1 .sidecarRemoval), .remove (artifactName id.1 .baseRemoval)],
      artifactName id.1 .sidecar ∉ w.names := by
    simp [Write.names, hb, hbt, hst]
  rw [present_congr (lookup_foldl_apply fun w hw => hrest w (List.mem_of_mem_take hw))]
  exact present_rename_source hst

/-- A removal whose first rename was taken back leaves no tombstone. -/
theorem removePair_undone {d : Dir} (h : ¬ RemovalStarted d id) :
    ¬ RemovalStarted (apply (apply d (.rename (artifactName id.1 .sidecar) (artifactName id.1 .sidecarRemoval)))
      (.rename (artifactName id.1 .sidecarRemoval) (artifactName id.1 .sidecar))) id := by
  rintro ⟨a, ha, hp⟩
  by_cases hs : a = .sidecarRemoval
  · subst hs
    rw [present_rename_source (artifactName_ne_self (by decide))] at hp
    cases hp
  · have hne : a ≠ .sidecar := by
      rintro rfl
      cases ha
    rw [present_congr (lookup_apply _), present_congr (lookup_apply _)] at hp
    · exact h ⟨a, ha, hp⟩
    · simpa [Write.names] using ⟨artifactName_ne_self hne, artifactName_ne_self hs⟩
    · simpa [Write.names] using ⟨artifactName_ne_self hs, artifactName_ne_self hne⟩

/-- A removal changes only the files of its image, and leaves it no pair beside a tombstone. -/
theorem step_remove {k : Nat} {undone : Bool} (hs : step s (.remove id k undone) = some t) :
    t.recovered = false ∧
      (∀ id', id' ≠ id → ∀ a, t.dir.lookup (artifactName id'.1 a) = s.dir.lookup (artifactName id'.1 a)) ∧
      (Stored t.dir id → ¬ RemovalStarted t.dir id) := by
  simp only [step] at hs
  split at hs
  · rename_i hcond
    simp only [Bool.and_eq_true, Bool.not_eq_true', Bool.or_eq_true, beq_iff_eq] at hcond
    obtain ⟨⟨⟨⟨-, -⟩, hbt⟩, hst⟩, hundone⟩ := hcond
    have hnot : ¬ RemovalStarted s.dir id := by
      rintro ⟨a, ha, hp⟩
      cases a with
      | baseRemoval =>
        rw [hbt] at hp
        cases hp
      | sidecarRemoval =>
        rw [hst] at hp
        cases hp
      | _ => cases ha
    cases hs
    refine ⟨rfl, fun id' hne a => ?_, ?_⟩
    · refine lookup_foldl_apply fun w hw hn => ?_
      have hown : ∃ b, artifactName id'.1 a = artifactName id.1 b := by
        rcases List.mem_append.mp hw with hw | hw
        · exact removePair_names (List.mem_of_mem_take hw) hn
        · cases undone with
          | false => cases hw
          | true =>
            rw [if_pos rfl, List.mem_singleton] at hw
            subst hw
            simp only [Write.names, List.mem_cons, List.not_mem_nil, or_false] at hn
            exact hn.elim (fun h => ⟨_, h⟩) fun h => ⟨_, h⟩
      obtain ⟨b, hb⟩ := hown
      exact artifactName_ne hne hb
    · cases undone with
      | true =>
        obtain rfl : k = 1 := by simpa using hundone
        exact fun _ => removePair_undone hnot
      | false =>
        cases k with
        | zero => exact fun _ => hnot
        | succ k =>
          intro hstored
          have hside := hstored.2
          rw [if_neg (by decide), List.append_nil, removePair_sidecar] at hside
          cases hside
  · cases hs

/-! ## Runs -/

structure Inv (s : Store) : Prop where
  pairs : ∀ id, Stored s.dir id → ¬ RemovalStarted s.dir id
  tidy : s.recovered = true → Tidy s.dir

theorem Initial.inv (h : Initial s) : Inv s where
  pairs id _ := h.tidy.tombstones id
  tidy hr := by
    rw [h.recovered] at hr
    cases hr

/-- **One operation** keeps the invariant, wherever it stops. -/
theorem Inv.step {e : Event} (h : Inv s) (hs : step s e = some t) : Inv t := by
  cases e with
  | cleanup listing walk stop =>
    obtain ⟨hk, -, htidy⟩ := step_cleanup hs
    refine ⟨fun id hst => ?_, htidy⟩
    exact hk.tombstones id (h.pairs id ⟨hk.base id hst.1, hk.sidecar id hst.2⟩)
  | pull p k swept =>
    obtain ⟨hr, hr', ws, hdir, howns, -⟩ := step_pull hs
    refine ⟨fun id _ => ?_, fun h => by rw [hr'] at h; cases h⟩
    rintro ⟨a, ha, hp⟩
    rw [hdir, present_congr (lookup_foldl_apply fun w hw => (howns w hw).not_mem (.inr ha))] at hp
    exact (h.tidy hr).tombstones id ⟨a, ha, hp⟩
  | remove id k undone =>
    obtain ⟨hr', hother, hself⟩ := step_remove hs
    refine ⟨fun id' hst => ?_, fun h => by rw [hr'] at h; cases h⟩
    by_cases hid : id' = id
    · subst hid
      exact hself hst
    · exact not_removalStarted_congr (hother id' hid) (h.pairs id' ((stored_congr (hother id' hid)).mp hst))
  | machines ms =>
    simp only [Recovery.step] at hs
    split at hs
    · cases hs
      exact ⟨h.pairs, h.tidy⟩
    · cases hs

/-- One operation keeps the pairs that it does not remove. -/
theorem Inv.keeps {e : Event} (h : Inv s) (hs : Recovery.step s e = some t) (he : ¬ e.removes id)
    (hc : Complete s.dir id bytes) : Complete t.dir id bytes := by
  cases e with
  | cleanup listing walk stop =>
    obtain ⟨hk, -, -⟩ := step_cleanup hs
    exact hc.congr (hk.pair id (h.pairs id hc.stored) hc.stored)
  | pull p k swept =>
    obtain ⟨-, -, ws, hdir, howns, hrefreshes⟩ := step_pull hs
    by_cases hid : p.id = id
    · subst hid
      have hre := hrefreshes hc.stored
      refine ⟨?_, ?_⟩
      · rw [hdir]
        exact (lookup_foldl_apply fun w hw => (hre w hw).1).trans hc.1
      · rw [hdir]
        exact present_foldl_apply (fun w hw => (hre w hw).2) hc.2
    · refine hc.congr fun a _ => ?_
      rw [hdir]
      exact lookup_foldl_apply fun w hw => (howns w hw).not_mem (.inl hid)
  | remove id' k undone =>
    obtain ⟨-, hother, -⟩ := step_remove hs
    exact hc.congr fun a _ => hother id (fun h => he h.symm) a
  | machines ms =>
    simp only [Recovery.step] at hs
    split at hs
    · cases hs
      exact hc
    · cases hs

theorem Inv.keeps_run {es : List Event} (h : Inv s) (hs : run Recovery.step s es = some t)
    (he : ∀ e ∈ es, ¬ e.removes id) (hc : Complete s.dir id bytes) : Complete t.dir id bytes := by
  induction es generalizing s with
  | nil =>
    cases hs
    exact hc
  | cons e es ih =>
    rw [List.forall_mem_cons] at he
    obtain ⟨u, hu, hrest⟩ := Option.bind_eq_some_iff.mp hs
    exact ih (h.step hu) hrest he.2 (h.keeps hu he.1 hc)

/-- Recovery spares what it sees a reference to. -/
theorem cleanup_spares {name : String} (hs : Recovery.step s (.cleanup listing walk stop) = some t)
    (hsight : InSight s.dir walk) (href : Referenced t.machines name id.1) (hfile : HasFile s.dir id)
    (hnot : ¬ RemovalStarted s.dir id) : HasFile t.dir id := by
  obtain ⟨hk, hmachines, -⟩ := step_cleanup hs
  by_cases hst : Stored s.dir id
  · exact ⟨.base, (present_congr (hk.pair id hnot hst .base (.inl rfl))).trans hst.1⟩
  · rw [hmachines] at href
    obtain ⟨hdot, hseen⟩ := hsight id name hfile hst hnot href
    obtain ⟨a, ha⟩ := hfile
    exact ⟨a, (present_congr (hk.guarded id hnot hst (imageReferences_finds hdot hseen) a)).trans ha⟩

end steps

/-- **Crash recovery**, in every state of every run: a recovery that succeeds leaves the directory tidy; a complete pair
keeps its base through every further run without a removal of it; and a recovery that sees the references to images
stored in part leaves no referenced image without a file unless a removal of it had started. -/
theorem store_recovers {s : Store} (hr : Reachable step anyStep Initial s) :
    (∀ listing walk t, step s (.cleanup listing walk none) = some t → t.recovered = true → Tidy t.dir) ∧
    (∀ es t id bytes, run step s es = some t → (∀ e ∈ es, ¬ e.removes id) → Complete s.dir id bytes →
      Complete t.dir id bytes) ∧
    ∀ listing walk stop t name id, step s (.cleanup listing walk stop) = some t → InSight s.dir walk →
      Referenced t.machines name id.1 → HasFile s.dir id → ¬ HasFile t.dir id → RemovalStarted s.dir id := by
  have hinv : Inv s := hr.invariant (fun _ h => h.inv) fun _ _ _ h _ hs => h.step hs
  refine ⟨fun listing walk t hs => (step_cleanup hs).2.2, fun es t id bytes hs => hinv.keeps_run hs, ?_⟩
  intro listing walk stop t name id hs hsight href hfile hgone
  by_contra hnot
  exact hgone (cleanup_spares hs hsight href hfile hnot)

/-! ## An image stored in part -/

def exampleId : ImageId := ⟨"image-".toList ++ List.replicate 64 'a', by decide⟩

def examplePull : Pull := ⟨exampleId, ⟨List.replicate 64 'b', by decide⟩, .disk [1, 2, 3] none, [4], false⟩

def emptyStore : Store := ⟨[], [], false⟩

theorem emptyStore_initial : Initial emptyStore := by
  refine ⟨⟨fun _ _ => rfl, fun _ => rfl, fun _ h => ?_, fun _ => rfl⟩, rfl⟩
  obtain ⟨_, -, h⟩ := h
  cases h

/-- Recovery of a store without files, or with these names, while this one machine is there. -/
def recoverWith (listing : List Name) (machine : String) : Event :=
  .cleanup listing (fun _ => [(machine, [exampleId.1])]) none

/-- The machine is created on the image. The image is removed and pulled again, but the pull stops after the base. -/
def tornRun (machine : String) : List Event :=
  [.cleanup [] (fun _ => []) none, .pull examplePull 10 [], .machines [(machine, [exampleId.1])],
    .remove exampleId 4 false, recoverWith [] machine, .pull examplePull 5 []]

/-- The base alone. -/
def tornDir : Dir := [(artifactName exampleId.1 .base, [1, 2, 3])]

theorem tornDir_hasFile : HasFile tornDir exampleId := ⟨.base, by decide⟩

theorem present_tornDir {id : ImageId} {a : Artifact} (h : present tornDir (artifactName id.1 a) = true) :
    id = exampleId ∧ a = .base := by
  obtain ⟨hid, ha⟩ := artifactName_inj id.2 exampleId.2 (List.mem_singleton.mp (present_iff.mp h))
  exact ⟨Subtype.ext hid, ha⟩

theorem tornDir_not_removalStarted (id : ImageId) : ¬ RemovalStarted tornDir id := by
  rintro ⟨a, ha, hp⟩
  obtain ⟨-, rfl⟩ := present_tornDir hp
  cases ha

theorem not_hasFile_nil (id : ImageId) : ¬ HasFile [] id := by
  rintro ⟨a, ha⟩
  cases ha

/-- With the machine `dev`, recovery leaves the base to the user; without it, it clears the store. A refresh that stops
after its temporary file leaves the pair as it is. -/
theorem torn_pull_recovered :
    (∃ s t u, Reachable step anyStep Initial s ∧ s.dir = tornDir ∧
      step s (.cleanup tornDir.names (fun _ => []) none) = some t ∧ Tidy t.dir ∧
      step s (recoverWith tornDir.names "dev") = some u ∧ HasFile u.dir exampleId) ∧
    ∃ s t, Reachable step anyStep Initial s ∧ Complete s.dir exampleId [1, 2, 3] ∧
      run step s [.cleanup s.dir.names (fun _ => []) none, .pull { examplePull with changed := true } 5 []] = some t ∧
      Complete t.dir exampleId [1, 2, 3] := by
  refine ⟨?_, ?_⟩
  · have hrun : (run step emptyStore (tornRun "dev")).any (fun s => decide (s.dir = tornDir) &&
        (step s (.cleanup tornDir.names (fun _ => []) none)).any (fun t => t.recovered) &&
        (step s (recoverWith tornDir.names "dev")).any fun u =>
          decide (u.machines = [("dev", [exampleId.1])])) = true := by
      decide +kernel
    obtain ⟨s, hs, h⟩ := (Option.any_eq_true _ _).mp hrun
    simp only [Bool.and_eq_true, decide_eq_true_eq] at h
    obtain ⟨⟨hdir, ht⟩, hu⟩ := h
    obtain ⟨t, ht, hrec⟩ := (Option.any_eq_true _ _).mp ht
    obtain ⟨u, hu, hmachines⟩ := (Option.any_eq_true _ _).mp hu
    have hr := reachable_of_run emptyStore_initial hs
    have hsight : InSight s.dir fun _ => [("dev", [exampleId.1])] := by
      intro id name _ _ _ ⟨ids, hids, hid⟩
      refine ⟨?_, fun _ _ => ⟨ids, hids, hid⟩⟩
      obtain ⟨rfl, -⟩ : name = "dev" ∧ _ := by simpa using mem_of_lookup hids
      decide
    refine ⟨s, t, u, hr, hdir, ht, (store_recovers hr).1 _ _ t ht hrec, hu, ?_⟩
    by_contra hgone
    refine tornDir_not_removalStarted exampleId ?_
    have href : Referenced u.machines "dev" exampleId.1 := by
      rw [of_decide_eq_true hmachines]
      exact ⟨_, rfl, List.mem_singleton.mpr rfl⟩
    rw [← hdir]
    exact (store_recovers hr).2.2 _ _ _ u "dev" exampleId hu hsight href (hdir ▸ tornDir_hasFile) hgone
  · have hrun : (run step emptyStore [recoverWith [] "dev", .pull examplePull 10 []]).any (fun s =>
        decide (s.dir.lookup (artifactName exampleId.1 .base) = some [1, 2, 3]) &&
        present s.dir (artifactName exampleId.1 .sidecar) &&
        (run step s [.cleanup s.dir.names (fun _ => []) none, .pull { examplePull with changed := true } 5 []]).isSome) =
          true := by
      decide +kernel
    obtain ⟨s, hs, h⟩ := (Option.any_eq_true _ _).mp hrun
    simp only [Bool.and_eq_true, decide_eq_true_eq] at h
    obtain ⟨t, ht⟩ := Option.isSome_iff_exists.mp h.2
    have hr := reachable_of_run emptyStore_initial hs
    have hkept := (store_recovers hr).2.1 _ t exampleId [1, 2, 3] ht (by simp [Event.removes]) h.1
    exact ⟨s, t, hr, h.1, ht, hkept⟩

/-- A machine may have a dot in front of its name. Recovery does not see it and deletes the base of its image. -/
theorem referenced_base_deleted : ∃ s t, Reachable step anyStep Initial s ∧
    step s (recoverWith s.dir.names ".dev") = some t ∧ Referenced s.machines ".dev" exampleId.1 ∧
    Referenced t.machines ".dev" exampleId.1 ∧ HasFile s.dir exampleId ∧ ¬ RemovalStarted s.dir exampleId ∧
    ¬ HasFile t.dir exampleId := by
  have hrun : (run step emptyStore (tornRun ".dev")).any (fun s => decide (s.dir = tornDir) &&
      decide (s.machines = [(".dev", [exampleId.1])]) &&
      (step s (recoverWith s.dir.names ".dev")).any fun t =>
        decide (t.machines = [(".dev", [exampleId.1])]) && decide (t.dir = [])) = true := by
    decide +kernel
  obtain ⟨s, hs, h⟩ := (Option.any_eq_true _ _).mp hrun
  simp only [Bool.and_eq_true, decide_eq_true_eq] at h
  obtain ⟨⟨hdir, hmachines⟩, ht⟩ := h
  obtain ⟨t, ht, h⟩ := (Option.any_eq_true _ _).mp ht
  simp only [Bool.and_eq_true, decide_eq_true_eq] at h
  refine ⟨s, t, reachable_of_run emptyStore_initial hs, ht, ?_, ?_, hdir ▸ tornDir_hasFile, ?_, ?_⟩
  · rw [hmachines]
    exact ⟨_, rfl, List.mem_singleton.mpr rfl⟩
  · rw [h.1]
    exact ⟨_, rfl, List.mem_singleton.mpr rfl⟩
  · rw [hdir]
    exact tornDir_not_removalStarted exampleId
  · rw [h.2]
    exact not_hasFile_nil exampleId

/-- `b` is listed, cloned to `a` and created anew before it is read. -/
def recreated : Nat → Machines
  | 0 => [("b", [exampleId.1])]
  | _ => [("a", [exampleId.1]), ("b", [])]

-- The names are ordinary ones here.
example : (run step emptyStore (tornRun "b")).any (fun s =>
    (step s (.cleanup s.dir.names recreated none)).any fun t => decide (t.dir = [])) = true := by
  decide +kernel

end Firestone.Image.Recovery
