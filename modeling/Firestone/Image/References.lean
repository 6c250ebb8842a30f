import Firestone.Lib.Members
import Firestone.Lib.Runs
import Firestone.Lib.Text
import Mathlib.Data.String.Basic

/-!
# Image references and garbage collection

`prune`, `prune_unreferenced` and `remove` without force hold the image-store lock, collect the references by a walk
through the machines directory and delete the images that no reference names. Machines are created, cloned, started,
snapshotted, restored and removed under locks of their own while the walk is under way. One action here is one
file-system step of one process.

* `Store` — the machine directories, the stored images, the locks and the processes.
* `step` — one step of one process. A step that fails releases the locks of its process.
* `InUse` — the image is named by the state of a machine or by a snapshot of one.
* `deleted_not_inUse` — no image in use is deleted, in runs whose steps meet `Undisturbed`.

The lock of a machine excludes other processes while the machine is not removed. A machine that runs keeps its lock
through its shim. Waiting for a lock may end in an error, which is `stop`. Snapshot locks and the image-store lock a
cold snapshot takes for its copy of the overlay are left out: nothing here needs them.
-/

namespace Firestone.Image.References

open Firestone.Lib

abbrev ImageId := String

abbrev Pid := Nat

/-! ## Names -/

/-- The values `checked_join` accepts: one normal path component without control characters. -/
def validComponent (value : String) : Bool :=
  value ≠ "" && value ≠ "." && value ≠ ".." && value.toList.all fun c => c ≠ '/' && !isControl c

/-- Names with a leading dot, which the walk takes for entries of its own. -/
def dotted (name : String) : Bool := name.toList.head? = some '.'

/-! ## The store -/

/-- One directory below the machines directory. -/
structure MachineDir where
  /-- The marker of a creation that is not finished. -/
  creating : Bool
  /-- The image id in `state.json`, if there is a `state.json`. -/
  state : Option (Option ImageId)
  /-- The published snapshots with the image id of their metadata. -/
  snapshots : List (String × Option ImageId)
  /-- The snapshots being assembled in `.partial-<snapshot>`. -/
  partials : List (String × Option ImageId)
  deriving DecidableEq, Repr

/-- A directory just marked as being created. -/
def MachineDir.fresh : MachineDir := ⟨true, none, [], []⟩

/-- The walk: the image it may remove, if only one, the names still to visit and the references found. -/
structure Walk where
  target : Option ImageId
  todo : List String
  refs : List (ImageId × String)
  deriving DecidableEq, Repr

def Walk.add (w : Walk) (id name : String) : Walk := { w with refs := (id, name) :: w.refs }

/-- Where a process is. -/
inductive Proc
  | idle
  -- `image_references` and the removals after it
  | listing (target : Option ImageId)
  | entries (w : Walk)
  | snapshots (w : Walk) (name : String)
  | snapshotEntries (w : Walk) (name : String) (names : List String)
  | snapshotMetadata (w : Walk) (name snapshot : String) (names : List String)
  | state (w : Walk) (name : String)
  | deleting (ids : List ImageId) (refs : List (ImageId × String))
  -- `create` and `clone_machine`
  | created (name : String)
  | cloning (source dest : String)
  | copying (source dest : String) (image : Option ImageId)
  | cloned (source dest : String) (image : Option ImageId)
  | overlay (dest : String) (id : ImageId)
  | overlaying (dest : String) (id : ImageId)
  | written (name : String)
  -- `start`
  | starting (name : String)
  | pinning (name : String)
  | running (name : String)
  -- `snapshot_create`
  | snapshotting (name snapshot : String) (image : Option ImageId)
  | capturing (name snapshot : String) (image : Option ImageId)
  | marking (name : String) (degraded : Option ImageId)
  | captured (name snapshot : String)
  -- `snapshot_restore` and `remove`
  | restoring (name : String)
  | restored (name : String) (image : Option ImageId)
  | removing (name : String)
  deriving DecidableEq, Repr

structure Store where
  machines : List (String × MachineDir)
  images : List ImageId
  imageLock : Option Pid
  machineLock : String → Option Pid
  procs : Pid → Proc

namespace Store

variable (s : Store) (p : Pid)

def goto (c : Proc) : Store := { s with procs := Function.update s.procs p c }

/-- The process ends, by success, error or death, and its locks are released. -/
def release : Store where
  machines := s.machines
  images := s.images
  imageLock := if s.imageLock = some p then none else s.imageLock
  machineLock n := if s.machineLock n = some p then none else s.machineLock n
  procs := Function.update s.procs p .idle

def lockImages : Store := { s with imageLock := some p }

def lockMachine (name : String) : Store := { s with machineLock := Function.update s.machineLock name (some p) }

def setDir (name : String) (d : MachineDir) : Store := { s with machines := insertMember name d s.machines }

def dropDir (name : String) : Store := { s with machines := eraseMember name s.machines }

def stateOf (name : String) : Option (Option ImageId) := (s.machines.lookup name).bind MachineDir.state

def imageOf (name : String) : Option ImageId := (s.stateOf name).join

/-- `ensure_machine_exists`. -/
def exists? (name : String) : Bool := (s.machines.lookup name).any fun d => !d.creating

end Store

/-! ## Steps -/

inductive Action
  | collect (target : Option ImageId)
  | create (name : String) (complete : Bool)
  | clone (source dest : String)
  | prepare (complete : Bool)
  | start (name : String)
  | pin (id : ImageId)
  | snapshotCreate (name snapshot : String) (cold : Bool)
  | markRead
  | snapshotRemove (name snapshot : String)
  | restore (name : String)
  | remove (name : String)
  | next
  | stop
  deriving DecidableEq, Repr

structure Event where
  pid : Pid
  action : Action
  deriving DecidableEq, Repr

/-- `prepare_machine_creation`, which leaves the process at `c`. A marked directory is finished if its publication is
found complete, else it is cleared. -/
def prepare (s : Store) (p : Pid) (name : String) (complete : Bool) (c : Proc) : Option Store :=
  if s.machineLock name = none ∧ validComponent name then
    match s.machines.lookup name with
    | none => some (((s.setDir name .fresh).lockMachine p name).goto p c)
    | some d =>
      if d.creating = false then some (s.release p)
      else if d.state.isSome && complete then some ((s.setDir name { d with creating := false }).release p)
      else some (((s.setDir name .fresh).lockMachine p name).goto p c)
  else none

/-- Taking the lock of a machine and finding that the machine exists. -/
def lockExisting (s : Store) (p : Pid) (name : String) (c : Proc) : Option Store :=
  if s.machineLock name = none ∧ s.exists? name then some ((s.lockMachine p name).goto p c) else none

/-- The next step of the walk of `image_references` and of the removals after it. -/
def collectNext (s : Store) (p : Pid) : Proc → Option Store
  | .listing target => some (s.goto p (.entries ⟨target, s.machines.map Prod.fst, []⟩))
  | .entries ⟨target, [], refs⟩ =>
    some (s.goto p (.deleting (match target with | none => s.images | some id => [id]) refs))
  | .entries ⟨target, name :: todo, refs⟩ =>
    match s.machines.lookup name with
    | none => some (s.release p)
    | some _ =>
      if dotted name then some (s.goto p (.entries ⟨target, todo, refs⟩))
      else some (s.goto p (.snapshots ⟨target, todo, refs⟩ name))
  | .snapshots w name =>
    -- No snapshots directory, also because the machine is gone, is no reference and no error.
    match s.machines.lookup name with
    | none => some (s.goto p (.snapshotEntries w name []))
    | some d => some (s.goto p (.snapshotEntries w name (d.snapshots.map Prod.fst)))
  | .snapshotEntries w name (snapshot :: names) =>
    match (s.machines.lookup name).bind fun d => d.snapshots.lookup snapshot with
    | none => some (s.release p)
    | some _ => some (s.goto p (.snapshotMetadata w name snapshot names))
  | .snapshotMetadata w name snapshot names =>
    match (s.machines.lookup name).bind fun d => d.snapshots.lookup snapshot with
    | some (some id) => some (s.goto p (.snapshotEntries (w.add id name) name names))
    | _ => some (s.goto p (.snapshotEntries w name names))
  | .snapshotEntries w name [] =>
    match s.stateOf name with
    | none => some (s.goto p (.entries w))
    | some _ => some (s.goto p (.state w name))
  | .state w name =>
    match s.stateOf name with
    | none => some (s.release p)
    | some none => some (s.goto p (.entries w))
    | some (some id) => some (s.goto p (.entries (w.add id name)))
  | .deleting [] _ => some (s.release p)
  | .deleting (id :: ids) refs =>
    if id ∈ refs.map Prod.fst then some (s.goto p (.deleting ids refs))
    else some ({ s with images := s.images.filter (· ≠ id) }.goto p (.deleting ids refs))
  | _ => none

/-- The next step of an operation on a machine. -/
def machineNext (s : Store) (p : Pid) : Proc → Option Store
  | .created name =>
    match s.machines.lookup name with
    | none => some (s.release p)
    | some d => some ((s.goto p (.written name)).setDir name { d with state := some none })
  | .cloning source dest =>
    match s.stateOf source with
    | none => some (s.release p)
    | some image => some (s.goto p (.copying source dest image))
  | .cloned _ dest image =>
    match s.machines.lookup dest with
    | none => some (s.release p)
    | some d =>
      let c := match image with
        | none => .written dest
        | some id => .overlay dest id
      some ((s.goto p c).setDir dest { d with state := some image })
  | .overlay dest id => if s.imageLock = none then some ((s.lockImages p).goto p (.overlaying dest id)) else none
  | .overlaying dest id =>
    if id ∈ s.images then some ({ s with imageLock := none }.goto p (.written dest)) else some (s.release p)
  | .written name =>
    match s.machines.lookup name with
    | none => some (s.release p)
    | some d => some ((s.release p).setDir name { d with creating := false })
  | .starting name => if s.imageLock = none then some ((s.lockImages p).goto p (.pinning name)) else none
  | .running _ => some (s.release p)
  | .snapshotting name snapshot image =>
    match s.machines.lookup name with
    | none => some (s.release p)
    | some d => some ((s.goto p (.capturing name snapshot image)).setDir name
        { d with partials := insertMember snapshot none d.partials })
  | .capturing name snapshot image =>
    -- Writing `metadata.json` needs the partial directory, whoever made it.
    match s.machines.lookup name with
    | none => some (s.release p)
    | some d =>
      if (d.partials.lookup snapshot).isSome then
        some ((s.goto p (.captured name snapshot)).setDir name
          { d with partials := insertMember snapshot image d.partials })
      else some (s.release p)
  | .marking name degraded =>
    -- The snapshot fails after the marker is written.
    match s.machines.lookup name with
    | none => some (s.release p)
    | some d => some ((s.release p).setDir name { d with state := some degraded })
  | .captured name snapshot =>
    match s.machines.lookup name with
    | none => some (s.release p)
    | some d =>
      match d.partials.lookup snapshot with
      | none => some (s.release p)
      | some image => some ((s.release p).setDir name
          { d with partials := eraseMember snapshot d.partials, snapshots := insertMember snapshot image d.snapshots })
  | .restoring name =>
    match s.stateOf name with
    | none => some (s.release p)
    | some image => some (s.goto p (.restored name image))
  | .restored name image =>
    match s.machines.lookup name with
    | none => some (s.release p)
    | some d => some ((s.release p).setDir name { d with state := some image })
  | .removing name => some ((s.release p).dropDir name)
  | _ => none

/-- One step of one process. -/
def step (s : Store) (e : Event) : Option Store :=
  match e.action, s.procs e.pid with
  | .stop, _ => some (s.release e.pid)
  | .collect target, .idle =>
    if s.imageLock = none then some ((s.lockImages e.pid).goto e.pid (.listing target)) else none
  | .create name complete, .idle => prepare s e.pid name complete (.created name)
  | .clone source dest, .idle => if source = dest then none else lockExisting s e.pid source (.cloning source dest)
  | .prepare complete, .copying source dest image => prepare s e.pid dest complete (.cloned source dest image)
  | .start name, .idle => lockExisting s e.pid name (.starting name)
  | .pin id, .pinning name =>
    -- A machine pinned before keeps its image. Else the image is in the store, or is pulled into it.
    match s.machines.lookup name with
    | none => some (s.release e.pid)
    | some d =>
      let s' := { s with imageLock := none }.goto e.pid (.running name)
      match d.state with
      | some none => some ({ s' with images := s.images.insert id }.setDir name { d with state := some (some id) })
      | _ => some s'
  | .snapshotCreate name snapshot cold, .idle =>
    match s.stateOf name with
    | none => none
    | some image =>
      if cold then lockExisting s e.pid name (.snapshotting name snapshot image)
      else if s.exists? name then some (s.goto e.pid (.snapshotting name snapshot image))
      else none
  | .markRead, .capturing name _ _ =>
    match s.stateOf name with
    | none => some (s.release e.pid)
    | some degraded => some (s.goto e.pid (.marking name degraded))
  | .snapshotRemove name snapshot, .idle =>
    match s.machines.lookup name with
    | none => none
    | some d => some (s.setDir name { d with snapshots := eraseMember snapshot d.snapshots })
  | .restore name, .idle => lockExisting s e.pid name (.restoring name)
  | .remove name, .idle => lockExisting s e.pid name (.removing name)
  | .next, c => (collectNext s e.pid c).or (machineNext s e.pid c)
  | _, _ => none

/-! ## Safety -/

/-- The image is named by the state of a machine or by the metadata of a published snapshot. -/
def InUse (s : Store) (id : ImageId) : Prop :=
  ∃ name d, s.machines.lookup name = some d ∧
    (d.state = some (some id) ∨ ∃ snapshot, d.snapshots.lookup snapshot = some (some id))

/-- The names a walk has still to visit, the one it is at included, and the references it has found. -/
def Proc.walk : Proc → Option (List String × List (ImageId × String))
  | .entries w => some (w.todo, w.refs)
  | .snapshots w name | .snapshotEntries w name _ | .snapshotMetadata w name _ _ | .state w name =>
    some (name :: w.todo, w.refs)
  | .deleting _ refs => some ([], refs)
  | _ => none

/-- No walk relies on the machine: each walk that has still to visit it has found its image already, or has still to
visit every other machine with that image. -/
def Spared (s : Store) (name : String) : Prop :=
  ∀ p todo refs, (s.procs p).walk = some (todo, refs) → name ∈ todo → ∀ id, s.imageOf name = some id →
    ∀ other, other ≠ name → s.imageOf other = some id → id ∈ refs.map Prod.fst ∨ other ∈ todo

/-- The condition on the steps of a run: no machine gets a name with a leading dot; a machine that a walk relies on is
not removed or cleared; a snapshot writes an image id only into the machine it read it from. -/
def Undisturbed (s : Store) (e : Event) : Prop :=
  match e.action, s.procs e.pid with
  | .create name _, .idle => dotted name = false ∧ Spared s name
  | .prepare _, .copying _ dest _ => dotted dest = false ∧ Spared s dest
  | .next, .removing name => Spared s name
  | .next, .capturing name _ image => ∀ d, s.machines.lookup name = some d → d.state = some image
  | .next, .marking name degraded => ∀ d, s.machines.lookup name = some d → d.state = some degraded
  | _, _ => True

/-- The snapshots of a machine, and those being assembled, name its image. -/
def MachineDir.Named (d : MachineDir) : Prop := ∀ snapshot id,
  d.snapshots.lookup snapshot = some (some id) ∨ d.partials.lookup snapshot = some (some id) → d.state = some (some id)

/-- No process is under way, no machine has a dotted name and each snapshot names the image of its machine. -/
structure Initial (s : Store) : Prop where
  idle : ∀ p, s.procs p = .idle
  undotted : ∀ name d, s.machines.lookup name = some d → dotted name = false
  snapshots : ∀ name d, s.machines.lookup name = some d → d.Named

/-! ## The invariant -/

/-- Every image in use is found already, or a machine with it is still to be visited. -/
def Covered (s : Store) (todo : List String) (refs : List (ImageId × String)) : Prop :=
  ∀ name id, s.imageOf name = some id → id ∈ refs.map Prod.fst ∨ ∃ n ∈ todo, s.imageOf n = some id

namespace Proc

def holdsImages : Proc → Bool
  | .listing _ | .entries _ | .snapshots _ _ | .snapshotEntries _ _ _ | .snapshotMetadata _ _ _ _ | .state _ _
  | .deleting _ _ | .pinning _ | .overlaying _ _ => true
  | _ => false

/-- The machines whose lock the process relies on. -/
def locks : Proc → List String
  | .created name | .written name | .starting name | .pinning name | .running name | .restoring name
  | .restored name _ | .removing name | .overlay name _ | .overlaying name _ => [name]
  | .cloning source _ | .copying source _ _ => [source]
  | .cloned source dest _ => [source, dest]
  | _ => []

/-- The states of machines the process relies on. -/
def known : Proc → List (String × Option (Option ImageId))
  | .created name => [(name, none)]
  | .copying source _ image => [(source, some image)]
  | .cloned source dest image => [(source, some image), (dest, none)]
  | .restored name image => [(name, some image)]
  | _ => []

end Proc

/-- What a process at `c` relies on holds. -/
structure Local (s : Store) (p : Pid) (c : Proc) : Prop where
  images : c.holdsImages → s.imageLock = some p
  locks : ∀ name ∈ c.locks, s.machineLock name = some p
  known : ∀ name st, (name, st) ∈ c.known → s.stateOf name = st
  covered : ∀ todo refs, c.walk = some (todo, refs) → Covered s todo refs

structure Inv (s : Store) : Prop where
  locals : ∀ p, Local s p (s.procs p)
  undotted : ∀ name d, s.machines.lookup name = some d → dotted name = false
  snapshots : ∀ name d, s.machines.lookup name = some d → d.Named

section invariant

variable {s : Store} {p : Pid} {c : Proc} {name : String} {d : MachineDir}

theorem Proc.holdsImages_of_walk {w : List String × List (ImageId × String)} (h : c.walk = some w) :
    c.holdsImages = true := by
  cases c <;> first | rfl | cases h

theorem Proc.mem_locks_of_known {st : Option (Option ImageId)} (h : (name, st) ∈ c.known) : name ∈ c.locks := by
  cases c <;> simp_all [Proc.known, Proc.locks]
  rcases h with h | h
  · exact .inl h.1
  · exact .inr h.1

theorem Local.idle : Local s p .idle := ⟨by simp [Proc.holdsImages], by simp [Proc.locks], by simp [Proc.known],
  by simp [Proc.walk]⟩

theorem Initial.inv (h : Initial s) : Inv s where
  locals p := by
    rw [h.idle]
    exact .idle
  undotted := h.undotted
  snapshots := h.snapshots

theorem Inv.goto (h : Inv s) (hc : Local s p c) : Inv (s.goto p c) where
  locals q := by
    show Local _ q (Function.update s.procs p c q)
    by_cases hq : q = p
    · subst hq
      rw [Function.update_self]
      exact ⟨hc.images, hc.locks, hc.known, hc.covered⟩
    · rw [Function.update_of_ne hq]
      have hl := h.locals q
      exact ⟨hl.images, hl.locks, hl.known, hl.covered⟩
  undotted := h.undotted
  snapshots := h.snapshots

/-- Releasing the locks of a process leaves those of the others. -/
theorem Inv.release (h : Inv s) : Inv (s.release p) where
  locals q := by
    show Local _ q (Function.update s.procs p .idle q)
    by_cases hq : q = p
    · subst hq
      rw [Function.update_self]
      exact .idle
    · rw [Function.update_of_ne hq]
      have hne : ∀ o : Option Pid, o = some q → (if o = some p then none else o) = some q := by
        rintro o rfl
        rw [if_neg fun he => hq (Option.some.inj he)]
      have hl := h.locals q
      exact ⟨fun hi => hne _ (hl.images hi), fun n hn => hne _ (hl.locks n hn), hl.known, hl.covered⟩
  undotted := h.undotted
  snapshots := h.snapshots

theorem Inv.lockMachine (h : Inv s) (hfree : s.machineLock name = none) : Inv (s.lockMachine p name) where
  locals q := by
    have hl := h.locals q
    refine ⟨hl.images, fun n hn => ?_, hl.known, hl.covered⟩
    have hlock := hl.locks n hn
    rw [← hlock]
    refine Function.update_of_ne ?_ _ _
    rintro rfl
    rw [hfree] at hlock
    cases hlock
  undotted := h.undotted
  snapshots := h.snapshots

theorem Inv.lockImages (h : Inv s) (hfree : s.imageLock = none) : Inv (s.lockImages p) where
  locals q := by
    have hl := h.locals q
    refine ⟨fun hi => ?_, hl.locks, hl.known, hl.covered⟩
    have hlock := hl.images hi
    rw [hfree] at hlock
    cases hlock
  undotted := h.undotted
  snapshots := h.snapshots

/-- The stored images are no concern of the invariant. -/
theorem Inv.setImages (h : Inv s) {images : List ImageId} : Inv { s with images := images } where
  locals q := ⟨(h.locals q).images, (h.locals q).locks, (h.locals q).known, (h.locals q).covered⟩
  undotted := h.undotted
  snapshots := h.snapshots

theorem Inv.unlockImages (h : Inv s) (hp : s.imageLock = some p) (hi : c.holdsImages = false) (hc : Local s p c) :
    Inv ({ s with imageLock := none }.goto p c) where
  locals q := by
    show Local _ q (Function.update s.procs p c q)
    by_cases hq : q = p
    · subst hq
      rw [Function.update_self]
      exact ⟨by simp [hi], hc.locks, hc.known, hc.covered⟩
    · rw [Function.update_of_ne hq]
      have hl := h.locals q
      refine ⟨fun hi => ?_, hl.locks, hl.known, hl.covered⟩
      have hlock := hl.images hi
      rw [hp] at hlock
      exact absurd (Option.some.inj hlock).symm hq
  undotted := h.undotted
  snapshots := h.snapshots

/-- The process that holds the lock of a machine is the only one that relies on it. -/
theorem Inv.eq_of_known (h : Inv s) {q : Pid} {st : Option (Option ImageId)} (hk : (name, st) ∈ (s.procs q).known) :
    s.machineLock name = some q := (h.locals q).locks name (Proc.mem_locks_of_known hk)

end invariant

/-! ## Changing a machine -/

section directories

variable {s s' : Store} {p : Pid} {c : Proc} {name n : String} {d d₀ : MachineDir} {todo : List String}
  {refs : List (ImageId × String)}

theorem stateOf_of_lookup (h : s.machines.lookup name = some d) : s.stateOf name = d.state := by
  rw [Store.stateOf, h]
  rfl

theorem stateOf_setDir_self : (s.setDir name d).stateOf name = d.state :=
  stateOf_of_lookup lookup_insertMember_self

theorem stateOf_setDir_ne (h : n ≠ name) : (s.setDir name d).stateOf n = s.stateOf n := by
  unfold Store.stateOf Store.setDir
  rw [lookup_insertMember_ne h]

theorem stateOf_dropDir_self : (s.dropDir name).stateOf name = none := by
  unfold Store.stateOf Store.dropDir
  rw [lookup_eraseMember_self]
  rfl

theorem stateOf_dropDir_ne (h : n ≠ name) : (s.dropDir name).stateOf n = s.stateOf n := by
  unfold Store.stateOf Store.dropDir
  rw [lookup_eraseMember_ne h]

theorem Covered.congr (h : Covered s todo refs) (himg : ∀ n, s'.imageOf n = s.imageOf n) : Covered s' todo refs := by
  intro n id hn
  rw [himg] at hn
  rcases h n id hn with hr | ⟨m, hm, hmid⟩
  · exact .inl hr
  · exact .inr ⟨m, hm, by rw [himg]; exact hmid⟩

/-- A machine that no walk relies on may lose its image. -/
theorem Covered.spared (h : Covered s todo refs) (hw : (s.procs p).walk = some (todo, refs)) (hsp : Spared s name)
    (hself : s'.imageOf name = none) (himg : ∀ n, n ≠ name → s'.imageOf n = s.imageOf n) : Covered s' todo refs := by
  intro n id hn
  have hne : n ≠ name := by
    rintro rfl
    rw [hself] at hn
    cases hn
  rw [himg n hne] at hn
  rcases h n id hn with hr | ⟨m, hm, hmid⟩
  · exact .inl hr
  by_cases hmn : m = name
  · subst hmn
    rcases hsp p todo refs hw hm id hmid n hne hn with hr | hr
    · exact .inl hr
    · exact .inr ⟨n, hr, by rw [himg n hne]; exact hn⟩
  · exact .inr ⟨m, hm, by rw [himg m hmn]; exact hmid⟩

/-- A machine without an image may get that of another machine. -/
theorem Covered.copied (h : Covered s todo refs) (hself : s.imageOf name = none)
    (hsrc : ∀ id, s'.imageOf name = some id → ∃ m, s.imageOf m = some id)
    (himg : ∀ n, n ≠ name → s'.imageOf n = s.imageOf n) : Covered s' todo refs := by
  intro n id hn
  have hold : ∃ m, s.imageOf m = some id := by
    by_cases hne : n = name
    · subst hne
      exact hsrc id hn
    · exact ⟨n, by rw [← himg n hne]; exact hn⟩
  obtain ⟨m, hm⟩ := hold
  rcases h m id hm with hr | ⟨k, hk, hkid⟩
  · exact .inl hr
  · refine .inr ⟨k, hk, ?_⟩
    rw [himg k ?_]
    · exact hkid
    · rintro rfl
      rw [hself] at hkid
      cases hkid

theorem Inv.setDir (h : Inv s) (hdot : dotted name = false) (hnamed : d.Named)
    (hknown : ∀ q st, (name, st) ∈ (s.procs q).known → d.state = st)
    (hcov : ∀ q todo refs, (s.procs q).walk = some (todo, refs) → Covered s todo refs →
      Covered (s.setDir name d) todo refs) : Inv (s.setDir name d) where
  locals q := by
    have hl := h.locals q
    refine ⟨hl.images, hl.locks, fun n st hk => ?_, fun todo refs hw => hcov q todo refs hw (hl.covered todo refs hw)⟩
    by_cases hn : n = name
    · subst hn
      rw [stateOf_setDir_self]
      exact hknown q st hk
    · rw [stateOf_setDir_ne hn]
      exact hl.known n st hk
  undotted n e he := by
    by_cases hn : n = name
    · rw [hn]
      exact hdot
    · exact h.undotted n e (by rw [← he]; exact (lookup_insertMember_ne hn).symm)
  snapshots n e he := by
    by_cases hn : n = name
    · subst hn
      obtain rfl : d = e := Option.some.inj (lookup_insertMember_self.symm.trans he)
      exact hnamed
    · exact h.snapshots n e (by rw [← he]; exact (lookup_insertMember_ne hn).symm)

/-- Changing what is beside the state of a machine. -/
theorem Inv.setDir_same (h : Inv s) (hd : s.machines.lookup name = some d₀) (hstate : d.state = d₀.state)
    (hnamed : d.Named) : Inv (s.setDir name d) := by
  have hsame : ∀ n, (s.setDir name d).stateOf n = s.stateOf n := by
    intro n
    by_cases hn : n = name
    · rw [hn, stateOf_setDir_self, hstate, stateOf_of_lookup hd]
    · exact stateOf_setDir_ne hn
  refine h.setDir (h.undotted name d₀ hd) hnamed (fun q st hk => ?_) fun q todo refs _ hc => ?_
  · rw [← (h.locals q).known name st hk, stateOf_of_lookup hd, hstate]
  · exact hc.congr fun n => by rw [Store.imageOf, Store.imageOf, hsame]

/-- Writing the first state of a machine, with no image or that of another machine. -/
theorem Inv.setDir_written (h : Inv s) (hd : s.machines.lookup name = some d₀) (hnone : d₀.state = none)
    {image : Option ImageId} (hknown : ∀ q st, (name, st) ∉ (s.procs q).known)
    (hsrc : ∀ id, image = some id → ∃ m, s.imageOf m = some id) :
    Inv (s.setDir name { d₀ with state := some image }) := by
  refine h.setDir (h.undotted name d₀ hd) (fun snapshot id hs => ?_) (fun q st hk => absurd hk (hknown q st))
    fun q todo refs _ hc => ?_
  · have := h.snapshots name d₀ hd snapshot id hs
    rw [hnone] at this
    cases this
  · refine hc.copied (by rw [Store.imageOf, stateOf_of_lookup hd, hnone]; rfl) (fun id hid => hsrc id ?_) fun n hn => ?_
    · rw [Store.imageOf, stateOf_setDir_self] at hid
      exact hid
    · rw [Store.imageOf, Store.imageOf, stateOf_setDir_ne hn]

/-- Clearing or making a directory whose lock is free. -/
theorem Inv.setDir_fresh (h : Inv s) (hdot : dotted name = false) (hsp : Spared s name)
    (hfree : s.machineLock name = none) : Inv (s.setDir name .fresh) := by
  refine h.setDir hdot (fun snapshot id hs => ?_) (fun q st hk => ?_) fun q todo refs hw hc => ?_
  · rcases hs with hs | hs <;> cases hs
  · have hlock := h.eq_of_known hk
    rw [hfree] at hlock
    cases hlock
  · refine hc.spared hw hsp ?_ fun n hn => ?_
    · rw [Store.imageOf, stateOf_setDir_self]
      rfl
    · rw [Store.imageOf, Store.imageOf, stateOf_setDir_ne hn]

theorem Inv.dropDir (h : Inv s) (hsp : Spared s name) (hknown : ∀ q st, (name, st) ∉ (s.procs q).known) :
    Inv (s.dropDir name) where
  locals q := by
    have hl := h.locals q
    refine ⟨hl.images, hl.locks, fun n st hk => ?_, fun todo refs hw => (hl.covered todo refs hw).spared hw hsp ?_ ?_⟩
    · rw [stateOf_dropDir_ne ?_]
      · exact hl.known n st hk
      · rintro rfl
        exact hknown q st hk
    · rw [Store.imageOf, stateOf_dropDir_self]
      rfl
    · intro n hn
      rw [Store.imageOf, Store.imageOf, stateOf_dropDir_ne hn]
  undotted n e he := by
    by_cases hn : n = name
    · subst hn
      cases lookup_eraseMember_self.symm.trans he
    · exact h.undotted n e (by rw [← he]; exact (lookup_eraseMember_ne hn).symm)
  snapshots n e he := by
    by_cases hn : n = name
    · subst hn
      cases lookup_eraseMember_self.symm.trans he
    · exact h.snapshots n e (by rw [← he]; exact (lookup_eraseMember_ne hn).symm)

end directories

/-! ## Every step keeps the invariant -/

section steps

variable {s s' : Store} {p : Pid} {c : Proc} {name : String}

theorem Inv.lockExisting (h : Inv s) (hc : Local (s.lockMachine p name) p c)
    (hs : lockExisting s p name c = some s') : Inv s' := by
  unfold References.lockExisting at hs
  split at hs
  · rename_i hfree
    cases hs
    exact (h.lockMachine hfree.1).goto hc
  · cases hs

theorem Local.locked : s.machineLock name = some p → Local s p (.written name) :=
  fun hl => ⟨by simp [Proc.holdsImages], by simpa [Proc.locks] using hl, by simp [Proc.known], by simp [Proc.walk]⟩

theorem lockMachine_self : (s.lockMachine p name).machineLock name = some p := Function.update_self ..

theorem Inv.prepare (h : Inv s) {complete : Bool} (hdot : dotted name = false) (hsp : Spared s name)
    (hc : s.machineLock name = none → Local ((s.setDir name .fresh).lockMachine p name) p c)
    (hs : prepare s p name complete c = some s') : Inv s' := by
  unfold References.prepare at hs
  split at hs
  · rename_i hfree
    have hfresh : Inv (((s.setDir name .fresh).lockMachine p name).goto p c) :=
      ((h.setDir_fresh hdot hsp hfree.1).lockMachine hfree.1).goto (hc hfree.1)
    split at hs
    · cases hs
      exact hfresh
    · rename_i d hd
      split at hs
      · cases hs
        exact h.release
      · split at hs
        · cases hs
          exact Inv.release (h.setDir_same hd rfl fun snapshot id => h.snapshots name d hd snapshot id)
        · cases hs
          exact hfresh
  · cases hs

/-- The walk visits: a name that has no image, or whose image is found, need not be visited again. -/
theorem Covered.visited {todo : List String} {refs refs' : List (ImageId × String)}
    (h : Covered s (name :: todo) refs) (hsub : ∀ id ∈ refs.map Prod.fst, id ∈ refs'.map Prod.fst)
    (hname : ∀ id, s.imageOf name = some id → id ∈ refs'.map Prod.fst) : Covered s todo refs' := by
  intro n id hn
  rcases h n id hn with hr | ⟨m, hm, hmid⟩
  · exact .inl (hsub id hr)
  · rcases List.mem_cons.mp hm with rfl | hm
    · exact .inl (hname id hmid)
    · exact .inr ⟨m, hm, hmid⟩

theorem Covered.found {todo : List String} {refs : List (ImageId × String)} {id : ImageId} (h : Covered s todo refs) :
    Covered s todo ((id, name) :: refs) := by
  intro n id' hn
  rcases h n id' hn with hr | hr
  · exact .inl (List.mem_cons_of_mem _ hr)
  · exact .inr hr

/-- A process of the walk at its next place. -/
theorem Local.walking (hl : s.imageLock = some p) (hlocks : c.locks = []) (hknown : c.known = [])
    (hcov : ∀ todo refs, c.walk = some (todo, refs) → Covered s todo refs) : Local s p c :=
  ⟨fun _ => hl, by simp [hlocks], by simp [hknown], hcov⟩

theorem Inv.collectNext (h : Inv s) (hpc : s.procs p = c) (hs : collectNext s p c = some s') : Inv s' := by
  have hl : Local s p c := hpc ▸ h.locals p
  have hmoves : ∀ {c'}, c.holdsImages = true → c'.locks = [] → c'.known = [] →
      (∀ todo refs, c'.walk = some (todo, refs) → Covered s todo refs) → Inv (s.goto p c') :=
    fun hi hlocks hknown hcov => h.goto (.walking (hl.images hi) hlocks hknown hcov)
  cases c with
  | listing target =>
    cases hs
    refine hmoves rfl rfl rfl ?_
    rintro todo refs ⟨⟩ n id hn
    refine .inr ⟨n, ?_, hn⟩
    -- A machine with an image has a directory, so the listing has its name.
    cases hd : s.machines.lookup n with
    | none => simp [Store.imageOf, Store.stateOf, hd] at hn
    | some d => exact List.mem_map_of_mem (mem_of_lookup hd)
  | entries w =>
    obtain ⟨target, todo, refs⟩ := w
    have hcov : Covered s todo refs := hl.covered _ _ rfl
    cases todo with
    | nil =>
      cases hs
      refine hmoves rfl rfl rfl ?_
      rintro _ _ ⟨⟩
      exact hcov
    | cons name todo =>
      simp only [References.collectNext] at hs
      split at hs
      · cases hs
        exact h.release
      · rename_i d hd
        rw [h.undotted name d hd] at hs
        cases hs
        refine hmoves rfl rfl rfl ?_
        rintro _ _ ⟨⟩
        exact hcov
  | snapshots w name =>
    have hcov : Covered s (name :: w.todo) w.refs := hl.covered _ _ rfl
    simp only [References.collectNext] at hs
    split at hs <;> cases hs <;> refine hmoves rfl rfl rfl ?_ <;> rintro _ _ ⟨⟩ <;> exact hcov
  | snapshotEntries w name names =>
    have hcov : Covered s (name :: w.todo) w.refs := hl.covered _ _ rfl
    cases names with
    | nil =>
      simp only [References.collectNext] at hs
      split at hs
      · rename_i hnone
        cases hs
        refine hmoves rfl rfl rfl ?_
        rintro _ _ ⟨⟩
        refine hcov.visited (fun _ hr => hr) fun id hid => ?_
        simp [Store.imageOf, hnone] at hid
      · cases hs
        refine hmoves rfl rfl rfl ?_
        rintro _ _ ⟨⟩
        exact hcov
    | cons snapshot names =>
      simp only [References.collectNext] at hs
      split at hs
      · cases hs
        exact h.release
      · cases hs
        refine hmoves rfl rfl rfl ?_
        rintro _ _ ⟨⟩
        exact hcov
  | snapshotMetadata w name snapshot names =>
    have hcov : Covered s (name :: w.todo) w.refs := hl.covered _ _ rfl
    simp only [References.collectNext] at hs
    split at hs
    · cases hs
      refine hmoves rfl rfl rfl ?_
      rintro _ _ ⟨⟩
      exact hcov.found
    · cases hs
      refine hmoves rfl rfl rfl ?_
      rintro _ _ ⟨⟩
      exact hcov
  | state w name =>
    have hcov : Covered s (name :: w.todo) w.refs := hl.covered _ _ rfl
    simp only [References.collectNext] at hs
    split at hs
    · cases hs
      exact h.release
    · rename_i hst
      cases hs
      refine hmoves rfl rfl rfl ?_
      rintro _ _ ⟨⟩
      refine hcov.visited (fun _ hr => hr) fun id hid => ?_
      simp [Store.imageOf, hst] at hid
    · rename_i id hst
      cases hs
      refine hmoves rfl rfl rfl ?_
      rintro _ _ ⟨⟩
      refine hcov.visited (fun _ hr => List.mem_cons_of_mem _ hr) fun id' hid => ?_
      simp only [Store.imageOf, hst, Option.join_some, Option.some.injEq] at hid
      rw [← hid]
      exact List.mem_cons_self
  | deleting ids refs =>
    have hcov : Covered s [] refs := hl.covered _ _ rfl
    cases ids with
    | nil =>
      cases hs
      exact h.release
    | cons id ids =>
      have hnext : Inv (s.goto p (.deleting ids refs)) := by
        refine hmoves rfl rfl rfl ?_
        rintro _ _ ⟨⟩
        exact hcov
      simp only [References.collectNext] at hs
      split at hs
      · cases hs
        exact hnext
      · cases hs
        exact hnext.setImages
  | _ => cases hs

/-- When the process with the lock of a machine moves to a place that relies on no state, nobody does. -/
theorem Inv.unknown (h : Inv s) (hlock : s.machineLock name = some p) (hc : c.known = []) (q : Pid)
    (st : Option (Option ImageId)) : (name, st) ∉ (Function.update s.procs p c q).known := by
  intro hk
  by_cases hq : q = p
  · subst hq
    rw [Function.update_self, hc] at hk
    cases hk
  · rw [Function.update_of_ne hq] at hk
    have hlock' := h.eq_of_known hk
    rw [hlock] at hlock'
    exact hq (Option.some.inj hlock').symm

theorem Spared.release (h : Spared s name) : Spared (s.release p) name := by
  intro q todo refs hw
  change (Function.update s.procs p .idle q).walk = _ at hw
  by_cases hq : q = p
  · subst hq
    rw [Function.update_self] at hw
    cases hw
  · rw [Function.update_of_ne hq] at hw
    exact h q todo refs hw

theorem MachineDir.Named.insertPartial {d : MachineDir} (h : d.Named) {snapshot : String} {image : Option ImageId}
    (himage : ∀ id, image = some id → d.state = some (some id)) :
    MachineDir.Named { d with partials := insertMember snapshot image d.partials } := by
  intro snapshot' id hs
  rcases hs with hs | hs
  · exact h snapshot' id (.inl hs)
  · by_cases he : snapshot' = snapshot
    · subst he
      rw [lookup_insertMember_self] at hs
      exact himage id (Option.some.inj hs)
    · rw [lookup_insertMember_ne he] at hs
      exact h snapshot' id (.inr hs)

theorem MachineDir.Named.publish {d : MachineDir} (h : d.Named) {snapshot : String} {image : Option ImageId}
    (hp : d.partials.lookup snapshot = some image) :
    MachineDir.Named { d with partials := eraseMember snapshot d.partials,
                              snapshots := insertMember snapshot image d.snapshots } := by
  intro snapshot' id hs
  by_cases he : snapshot' = snapshot
  · subst he
    rw [lookup_insertMember_self, lookup_eraseMember_self] at hs
    rcases hs with hs | hs
    · exact h snapshot' id (.inr (by rw [hp, hs]))
    · cases hs
  · rw [lookup_insertMember_ne he, lookup_eraseMember_ne he] at hs
    exact h snapshot' id hs

theorem Inv.machineNext (h : Inv s) (hpc : s.procs p = c) (hok : Undisturbed s ⟨p, .next⟩)
    (hs : machineNext s p c = some s') : Inv s' := by
  have hl : Local s p c := hpc ▸ h.locals p
  have hfree : ∀ {c' : Proc}, c'.holdsImages = false → c'.locks = [] → c'.known = [] → c'.walk = none →
      Inv (s.goto p c') :=
    fun hi hlocks hknown hw => h.goto ⟨by simp [hi], by simp [hlocks], by simp [hknown], by simp [hw]⟩
  simp only [Undisturbed, hpc] at hok
  cases c with
  | created name =>
    have hlock := hl.locks name List.mem_cons_self
    simp only [References.machineNext] at hs
    split at hs
    · cases hs
      exact h.release
    · rename_i d hd
      cases hs
      have hnone : d.state = none := (stateOf_of_lookup hd).symm.trans (hl.known name none List.mem_cons_self)
      exact (h.goto (.locked hlock)).setDir_written hd hnone (h.unknown hlock rfl) (by rintro _ ⟨⟩)
  | cloning source dest =>
    simp only [References.machineNext] at hs
    split at hs
    · cases hs
      exact h.release
    · rename_i image himage
      cases hs
      refine h.goto ⟨by simp [Proc.holdsImages], hl.locks, ?_, by simp [Proc.walk]⟩
      intro n st hk
      obtain ⟨rfl, rfl⟩ := Prod.mk.inj (List.mem_singleton.mp hk)
      exact himage
  | cloned source dest image =>
    have hlock := hl.locks dest (List.mem_cons_of_mem _ List.mem_cons_self)
    have hsource := hl.known source (some image) List.mem_cons_self
    simp only [References.machineNext] at hs
    split at hs
    · cases hs
      exact h.release
    · rename_i d hd
      cases hs
      have hnone : d.state = none :=
        (stateOf_of_lookup hd).symm.trans (hl.known dest none (List.mem_cons_of_mem _ List.mem_cons_self))
      have hsrc : ∀ id, image = some id → ∃ m, s.imageOf m = some id := by
        rintro id rfl
        exact ⟨source, by rw [Store.imageOf, hsource]; rfl⟩
      cases image with
      | none => exact (h.goto (.locked hlock)).setDir_written hd hnone (h.unknown hlock rfl) hsrc
      | some id =>
        have hover : Local s p (.overlay dest id) :=
          ⟨by simp [Proc.holdsImages], by simpa [Proc.locks] using hlock, by simp [Proc.known], by simp [Proc.walk]⟩
        exact (h.goto hover).setDir_written hd hnone (h.unknown hlock rfl) hsrc
  | overlay dest id =>
    simp only [References.machineNext] at hs
    split at hs
    · rename_i himg
      cases hs
      exact (h.lockImages himg).goto ⟨fun _ => rfl, hl.locks, by simp [Proc.known], by simp [Proc.walk]⟩
    · cases hs
  | overlaying dest id =>
    simp only [References.machineNext] at hs
    split at hs
    · cases hs
      exact h.unlockImages (hl.images rfl) rfl (.locked (hl.locks dest List.mem_cons_self))
    · cases hs
      exact h.release
  | written name =>
    simp only [References.machineNext] at hs
    split at hs
    · cases hs
      exact h.release
    · rename_i d hd
      cases hs
      exact h.release.setDir_same hd rfl fun snapshot id => h.snapshots name d hd snapshot id
  | starting name =>
    simp only [References.machineNext] at hs
    split at hs
    · rename_i himg
      cases hs
      exact (h.lockImages himg).goto ⟨fun _ => rfl, hl.locks, by simp [Proc.known], by simp [Proc.walk]⟩
    · cases hs
  | running name =>
    cases hs
    exact h.release
  | snapshotting name snapshot image =>
    simp only [References.machineNext] at hs
    split at hs
    · cases hs
      exact h.release
    · rename_i d hd
      cases hs
      exact (hfree rfl rfl rfl rfl).setDir_same hd rfl ((h.snapshots name d hd).insertPartial (by rintro _ ⟨⟩))
  | capturing name snapshot image =>
    simp only [References.machineNext] at hs
    split at hs
    · cases hs
      exact h.release
    · rename_i d hd
      split at hs
      · cases hs
        refine (hfree rfl rfl rfl rfl).setDir_same hd rfl ((h.snapshots name d hd).insertPartial ?_)
        rintro id rfl
        exact hok d hd
      · cases hs
        exact h.release
  | marking name degraded =>
    simp only [References.machineNext] at hs
    split at hs
    · cases hs
      exact h.release
    · rename_i d hd
      cases hs
      have hstate : some degraded = d.state := (hok d hd).symm
      exact h.release.setDir_same hd hstate fun snapshot id hs => hstate.trans (h.snapshots name d hd snapshot id hs)
  | captured name snapshot =>
    simp only [References.machineNext] at hs
    split at hs
    · cases hs
      exact h.release
    · rename_i d hd
      split at hs
      · cases hs
        exact h.release
      · rename_i image himage
        cases hs
        exact h.release.setDir_same hd rfl ((h.snapshots name d hd).publish himage)
  | restoring name =>
    simp only [References.machineNext] at hs
    split at hs
    · cases hs
      exact h.release
    · rename_i image himage
      cases hs
      refine h.goto ⟨by simp [Proc.holdsImages], hl.locks, ?_, by simp [Proc.walk]⟩
      intro n st hk
      obtain ⟨rfl, rfl⟩ := Prod.mk.inj (List.mem_singleton.mp hk)
      exact himage
  | restored name image =>
    simp only [References.machineNext] at hs
    split at hs
    · cases hs
      exact h.release
    · rename_i d hd
      cases hs
      have hstate : some image = d.state :=
        (hl.known name (some image) List.mem_cons_self).symm.trans (stateOf_of_lookup hd)
      exact h.release.setDir_same hd hstate fun snapshot id hs => hstate.trans (h.snapshots name d hd snapshot id hs)
  | removing name =>
    cases hs
    exact h.release.dropDir hok.release (h.unknown (hl.locks name List.mem_cons_self) rfl)
  | _ => cases hs

/-- Pinning an image happens under the image-store lock, so no walk is under way. -/
theorem Inv.pin (h : Inv s) {id : ImageId} (hpc : s.procs p = .pinning name)
    (hs : step s ⟨p, .pin id⟩ = some s') : Inv s' := by
  have hl : Local s p (.pinning name) := hpc ▸ h.locals p
  have hlock : s.machineLock name = some p := hl.locks name List.mem_cons_self
  have hrunning : Inv ({ s with imageLock := none }.goto p (.running name)) :=
    h.unlockImages (hl.images rfl) rfl ⟨by simp [Proc.holdsImages], hl.locks, by simp [Proc.known], by simp [Proc.walk]⟩
  simp only [step, hpc] at hs
  split at hs
  · cases hs
    exact h.release
  · rename_i d hd
    split at hs
    · rename_i hst
      cases hs
      refine hrunning.setImages.setDir (h.undotted name d hd) (fun snapshot id hs => ?_) (fun q st hk => ?_)
        fun q todo refs hw hc => ?_
      · have := h.snapshots name d hd snapshot id hs
        rw [hst] at this
        cases this
      · exact absurd hk (h.unknown hlock rfl q st)
      · cases (hrunning.locals q).images (Proc.holdsImages_of_walk hw)
    · cases hs
      exact hrunning

theorem Local.unlocked (hi : c.holdsImages = false) (hlocks : c.locks = []) (hknown : c.known = [])
    (hw : c.walk = none) : Local s p c :=
  ⟨by simp [hi], by simp [hlocks], by simp [hknown], by simp [hw]⟩

/-- A process that has just taken the lock of a machine. -/
theorem Local.lockedAt (hi : c.holdsImages = false) (hlocks : c.locks = [name] ∨ c.locks = []) (hknown : c.known = [])
    (hw : c.walk = none) : Local (s.lockMachine p name) p c := by
  refine ⟨by simp [hi], fun n hn => ?_, by simp [hknown], by simp [hw]⟩
  rcases hlocks with hlocks | hlocks
  · rw [hlocks] at hn
    rw [List.mem_singleton.mp hn]
    exact lockMachine_self
  · rw [hlocks] at hn
    cases hn

/-- The actions that begin an operation. -/
def Action.begins : Action → Bool
  | .collect _ | .create _ _ | .clone _ _ | .start _ | .snapshotCreate _ _ _ | .snapshotRemove _ _ | .restore _
  | .remove _ => true
  | _ => false

theorem idle_of_begins {a : Action} (ha : a.begins) (hs : step s ⟨p, a⟩ = some s') : s.procs p = .idle := by
  unfold References.step at hs
  split at hs
  any_goals assumption
  any_goals (rename_i ha' hpc'; simp only at ha'; subst ha'; cases ha)
  any_goals (rename_i ha'; simp only at ha'; subst ha'; cases ha)
  cases hs

/-- **One step** of any process keeps the invariant. -/
theorem Inv.step {e : Event} (h : Inv s) (hok : Undisturbed s e) (hs : step s e = some s') : Inv s' := by
  obtain ⟨p, a⟩ := e
  have hidle : a.begins → s.procs p = .idle := fun ha => idle_of_begins ha hs
  cases a with
  | stop =>
    cases hs
    exact h.release
  | next =>
    simp only [References.step] at hs
    rcases Option.or_eq_some_iff.mp hs with hs | ⟨-, hs⟩
    · exact h.collectNext rfl hs
    · exact h.machineNext rfl hok hs
  | collect target =>
    simp only [References.step, hidle rfl] at hs
    split at hs
    · rename_i himg
      cases hs
      exact (h.lockImages himg).goto ⟨fun _ => rfl, by simp [Proc.locks], by simp [Proc.known], by simp [Proc.walk]⟩
    · cases hs
  | create name complete =>
    simp only [Undisturbed, hidle rfl] at hok
    simp only [References.step, hidle rfl] at hs
    refine h.prepare hok.1 hok.2 (fun _ => ⟨by simp [Proc.holdsImages], ?_, ?_, by simp [Proc.walk]⟩) hs
    · intro n hn
      rw [List.mem_singleton.mp hn]
      exact lockMachine_self
    · intro n st hk
      obtain ⟨rfl, rfl⟩ := Prod.mk.inj (List.mem_singleton.mp hk)
      exact stateOf_setDir_self
  | clone source dest =>
    simp only [References.step, hidle rfl] at hs
    split at hs
    · cases hs
    · exact h.lockExisting (.lockedAt rfl (.inl rfl) rfl rfl) hs
  | prepare complete =>
    cases hpc : s.procs p with
    | copying source dest image =>
      have hl : Local s p (.copying source dest image) := hpc ▸ h.locals p
      have hlock : s.machineLock source = some p := hl.locks source List.mem_cons_self
      simp only [Undisturbed, hpc] at hok
      simp only [References.step, hpc] at hs
      refine h.prepare hok.1 hok.2 (fun hfree => ?_) hs
      have hne : source ≠ dest := by
        rintro rfl
        rw [hlock] at hfree
        cases hfree
      refine ⟨by simp [Proc.holdsImages], fun n hn => ?_, fun n st hk => ?_, by simp [Proc.walk]⟩
      · simp only [Proc.locks, List.mem_cons, List.not_mem_nil, or_false] at hn
        rcases hn with rfl | rfl
        · exact (Function.update_of_ne hne _ _).trans hlock
        · exact lockMachine_self
      · simp only [Proc.known, List.mem_cons, List.not_mem_nil, or_false, Prod.mk.injEq] at hk
        rcases hk with ⟨rfl, rfl⟩ | ⟨rfl, rfl⟩
        · exact (stateOf_setDir_ne hne).trans (hl.known n (some image) List.mem_cons_self)
        · exact stateOf_setDir_self
    | _ => simp [References.step, hpc] at hs
  | start name =>
    simp only [References.step, hidle rfl] at hs
    exact h.lockExisting (.lockedAt rfl (.inl rfl) rfl rfl) hs
  | pin id =>
    cases hpc : s.procs p with
    | pinning name => exact h.pin hpc hs
    | _ => simp [References.step, hpc] at hs
  | snapshotCreate name snapshot cold =>
    simp only [References.step, hidle rfl] at hs
    split at hs
    · cases hs
    · split at hs
      · exact h.lockExisting (.lockedAt rfl (.inr rfl) rfl rfl) hs
      · split at hs
        · cases hs
          exact h.goto (.unlocked rfl rfl rfl rfl)
        · cases hs
  | markRead =>
    cases hpc : s.procs p with
    | capturing name snapshot image =>
      simp only [References.step, hpc] at hs
      split at hs
      · cases hs
        exact h.release
      · cases hs
        exact h.goto (.unlocked rfl rfl rfl rfl)
    | _ => simp [References.step, hpc] at hs
  | snapshotRemove name snapshot =>
    simp only [References.step, hidle rfl] at hs
    split at hs
    · cases hs
    · rename_i d hd
      cases hs
      refine h.setDir_same hd rfl fun snapshot' id hs => ?_
      by_cases he : snapshot' = snapshot
      · subst he
        rw [lookup_eraseMember_self] at hs
        rcases hs with hs | hs
        · cases hs
        · exact h.snapshots name d hd snapshot' id (.inr hs)
      · rw [lookup_eraseMember_ne he] at hs
        exact h.snapshots name d hd snapshot' id hs
  | restore name =>
    simp only [References.step, hidle rfl] at hs
    exact h.lockExisting (.lockedAt rfl (.inl rfl) rfl rfl) hs
  | remove name =>
    simp only [References.step, hidle rfl] at hs
    exact h.lockExisting (.lockedAt rfl (.inl rfl) rfl rfl) hs

end steps

/-! ## No image in use is deleted -/

section deletion

variable {s s' : Store} {p : Pid} {c : Proc} {name : String} {id : ImageId}

theorem lockExisting_images (hs : lockExisting s p name c = some s') : s'.images = s.images := by
  unfold lockExisting at hs
  split at hs <;> cases hs
  rfl

theorem prepare_images {complete : Bool} (hs : prepare s p name complete c = some s') : s'.images = s.images := by
  unfold prepare at hs
  split at hs
  · split at hs
    · cases hs
      rfl
    · split at hs
      · cases hs
        rfl
      · split at hs <;> cases hs <;> rfl
  · cases hs

theorem machineNext_images (hs : machineNext s p c = some s') : s'.images = s.images := by
  unfold machineNext at hs
  split at hs
  all_goals try split at hs
  all_goals try split at hs
  all_goals cases hs
  all_goals rfl

/-- The walk deletes only what it has found no reference to. -/
theorem collectNext_deletes (hs : collectNext s p c = some s') (hid : id ∈ s.images) (hgone : id ∉ s'.images) :
    ∃ ids refs, c = .deleting (id :: ids) refs ∧ id ∉ refs.map Prod.fst := by
  have hkeeps : s'.images = s.images → False := fun he => hgone (he ▸ hid)
  cases c with
  | deleting ids refs =>
    cases ids with
    | nil =>
      cases hs
      exact (hkeeps rfl).elim
    | cons x ids =>
      simp only [collectNext] at hs
      split at hs
      · cases hs
        exact (hkeeps rfl).elim
      · rename_i hx
        cases hs
        have hxid : id = x := by
          by_contra hne
          exact hgone (List.mem_filter.mpr ⟨hid, by simpa using hne⟩)
        subst hxid
        exact ⟨ids, refs, rfl, hx⟩
  | _ =>
    refine (hkeeps ?_).elim
    unfold collectNext at hs
    split at hs
    all_goals try split at hs
    all_goals try split at hs
    all_goals first | cases hs; rfl | simp_all

/-- Only a walk that has collected its references deletes images. -/
theorem step_deletes {e : Event} (hs : step s e = some s') (hid : id ∈ s.images) (hgone : id ∉ s'.images) :
    ∃ ids refs, s.procs e.pid = .deleting (id :: ids) refs ∧ id ∉ refs.map Prod.fst := by
  have hkeeps : s'.images = s.images → False := fun he => hgone (he ▸ hid)
  unfold step at hs
  split at hs
  · cases hs
    exact (hkeeps rfl).elim
  · split at hs <;> cases hs
    exact (hkeeps rfl).elim
  · exact (hkeeps (prepare_images hs)).elim
  · split at hs
    · cases hs
    · exact (hkeeps (lockExisting_images hs)).elim
  · exact (hkeeps (prepare_images hs)).elim
  · exact (hkeeps (lockExisting_images hs)).elim
  · split at hs
    · cases hs
      exact (hkeeps rfl).elim
    · dsimp only at hs
      split at hs <;> cases hs
      · exact (hgone (List.mem_insert_of_mem hid)).elim
      · exact (hkeeps rfl).elim
  · split at hs
    · cases hs
    · split at hs
      · exact (hkeeps (lockExisting_images hs)).elim
      · split at hs <;> cases hs
        exact (hkeeps rfl).elim
  · split at hs <;> cases hs <;> exact (hkeeps rfl).elim
  · split at hs <;> cases hs
    exact (hkeeps rfl).elim
  · exact (hkeeps (lockExisting_images hs)).elim
  · exact (hkeeps (lockExisting_images hs)).elim
  · rcases Option.or_eq_some_iff.mp hs with hs | ⟨-, hs⟩
    · exact collectNext_deletes hs hid hgone
    · exact (hkeeps (machineNext_images hs)).elim
  · cases hs

/-- An image in use is that of some machine. -/
theorem Inv.imageOf_inUse (h : Inv s) (hu : InUse s id) : ∃ name, s.imageOf name = some id := by
  obtain ⟨name, d, hd, hu⟩ := hu
  have hstate : d.state = some (some id) := by
    rcases hu with hu | ⟨snapshot, hu⟩
    · exact hu
    · exact h.snapshots name d hd snapshot id (.inl hu)
  exact ⟨name, by rw [Store.imageOf, stateOf_of_lookup hd, hstate]; rfl⟩

end deletion

/-- **Garbage collection**: in runs whose steps meet `Undisturbed` no image is deleted that a machine or a published
snapshot names at that moment. -/
theorem deleted_not_inUse {s s' : Store} {e : Event} {id : ImageId} (hr : Reachable step Undisturbed Initial s)
    (hs : step s e = some s') (hid : id ∈ s.images) (hgone : id ∉ s'.images) : ¬ InUse s id := by
  have hinv : Inv s := hr.invariant (fun _ h => h.inv) fun _ _ _ h hok hs => h.step hok hs
  obtain ⟨ids, refs, hpc, hnot⟩ := step_deletes hs hid hgone
  intro hu
  obtain ⟨name, hname⟩ := hinv.imageOf_inUse hu
  have hcov : Covered s [] refs := (hinv.locals e.pid).covered [] refs (by rw [hpc]; rfl)
  rcases hcov name id hname with hfound | ⟨n, hn, -⟩
  · exact hnot hfound
  · cases hn

/-- No machines and no processes. -/
def emptyStore (images : List ImageId) : Store := ⟨[], images, none, fun _ => none, fun _ => .idle⟩

theorem emptyStore_initial (images : List ImageId) : Initial (emptyStore images) where
  idle _ := rfl
  undotted := by rintro _ _ ⟨⟩
  snapshots := by rintro _ _ ⟨⟩

/-- The process `p` takes the actions. -/
def by_ (p : Pid) (actions : List Action) : List Event := actions.map (Event.mk p)

/-- Creating a machine and starting it once, which pins the image. -/
def createStarted (p : Pid) (name : String) (id : ImageId) : List Event :=
  by_ p [.create name false, .next, .next, .start name, .next, .pin id, .next]

/-- With the machine `dev` on the image `new`, a prune deletes the image `old`. -/
theorem old_image_not_inUse : ∃ s s', Reachable step Undisturbed Initial s ∧
    step s ⟨1, .next⟩ = some s' ∧ "old" ∈ s.images ∧ "old" ∉ s'.images ∧ ¬ InUse s "old" := by
  have hrun : (run step (emptyStore ["old"]) (createStarted 0 "dev" "new" ++
      by_ 1 [.collect none, .next, .next, .next, .next, .next, .next, .next])).any (fun s =>
        decide ("old" ∈ s.images) && (step s ⟨1, .next⟩).any fun s' => decide ("old" ∉ s'.images)) = true := by
    decide
  obtain ⟨s, hs, hs'⟩ := (Option.any_eq_true _ _).mp hrun
  obtain ⟨hid, hs'⟩ := Bool.and_eq_true_iff.mp hs'
  obtain ⟨s', hs', hgone⟩ := (Option.any_eq_true _ _).mp hs'
  have hmeet : StepsMeet step Undisturbed (emptyStore ["old"]) (createStarted 0 "dev" "new" ++
      by_ 1 [.collect none, .next, .next, .next, .next, .next, .next, .next]) := by
    refine .cons rfl ⟨by decide, by rintro _ _ _ ⟨⟩⟩ ?_
    repeat refine .cons rfl trivial ?_
    trivial
  have hr := (Reachable.start (emptyStore_initial ["old"])).run hmeet hs
  exact ⟨s, s', hr, hs', of_decide_eq_true hid, of_decide_eq_true hgone,
    deleted_not_inUse hr hs' (of_decide_eq_true hid) (of_decide_eq_true hgone)⟩

/-- The next step deletes the image of a machine that is published. -/
def deletesImage (s : Store) (e : Event) (name : String) (id : ImageId) : Bool :=
  (s.machines.lookup name).any (fun d => !d.creating && d.state == some (some id)) && decide (id ∈ s.images) &&
    (step s e).any fun s' => decide (id ∉ s'.images)

/-- A machine whose name has a leading dot is accepted and started; the prune that follows does not see it. -/
def dottedRun : List Event :=
  createStarted 0 ".dev" "x" ++ by_ 1 [.collect none, .next, .next, .next]

/-- While a prune walks, `b` is cloned to `a`; the clone gives up waiting for the image store, `b` is removed and
created anew, and creating `a` finds and publishes the finished clone. -/
def recreatedRun : List Event :=
  createStarted 0 "b" "x" ++ by_ 1 [.collect none, .next] ++ by_ 2 [.clone "b" "a", .next, .prepare false, .next, .stop] ++
    by_ 3 [.remove "b", .next, .create "b" false, .next, .next, .create "a" true] ++ by_ 1 [.next, .next, .next, .next, .next]

theorem image_in_use_deleted : ∃ s s', Reachable step anyStep Initial s ∧ step s ⟨1, .next⟩ = some s' ∧
    "x" ∈ s.images ∧ "x" ∉ s'.images ∧ InUse s "x" := by
  have hrun : (run step (emptyStore []) dottedRun).any (deletesImage · ⟨1, .next⟩ ".dev" "x") = true := by
    decide
  obtain ⟨s, hs, hdel⟩ := (Option.any_eq_true _ _).mp hrun
  obtain ⟨hused, hgone⟩ := Bool.and_eq_true_iff.mp hdel
  obtain ⟨hused, hid⟩ := Bool.and_eq_true_iff.mp hused
  obtain ⟨d, hd, hstate⟩ := (Option.any_eq_true _ _).mp hused
  obtain ⟨s', hs', hgone⟩ := (Option.any_eq_true _ _).mp hgone
  have hstate : d.state = some (some "x") := by simpa using (Bool.and_eq_true_iff.mp hstate).2
  exact ⟨s, s', reachable_of_run (emptyStore_initial []) hs, hs', of_decide_eq_true hid, of_decide_eq_true hgone,
    ".dev", d, hd, .inl hstate⟩

-- The names are ordinary ones here.
example : (run step (emptyStore []) recreatedRun).any (deletesImage · ⟨1, .next⟩ "a" "x") = true := by decide

end Firestone.Image.References
