import Firestone.Machine.SpecWriters
import Firestone.Paths

/-!
# The spec files of a store

Every operation that creates or changes a machine publishes its `firestone.toml` through a call of the atomic writer of
its own. The file may hold a password.

* `Action.perform` — what one operation does to the store when it succeeds.
* `Masked` — an operation that gives no mode runs under a umask that leaves the owner reading and writing, and nobody
  else.
* `reachable_private` — in runs whose steps all meet it, every spec is private.
-/

namespace Firestone.Machine.SpecFiles

open Firestone.Lib Firestone.Machine.SpecWriters

/-! ## Operations -/

/-- The `firestone.toml` of a machine, and the spec in each of its snapshots. -/
structure MachineFiles where
  spec : Atomic.File
  snapshots : String → Option Bytes

abbrev Store := String → Option MachineFiles

/-- What the operations use of the host: the spec environment, and the image reference a new machine is created with. -/
structure Host extends SpecEnv where
  imageReference : MachineSpec → Res ImageRef

inductive Operation
  | create (name : String) (spec : MachineSpec)
  /-- `edited` is what the editor has left in the candidate. -/
  | createWithEdit (name : String) (spec : MachineSpec) (edited : Bytes)
  | clone (source dest : String)
  | edit (name : String) (edited : Bytes)
  | setSpec (name : String) (spec : MachineSpec)
  | patchSpec (name : String) (patch : MachineSpecPatch)
  | resize (name : String) (cpus : Option UInt8) (memory : Option ByteSize)
  | snapshotCreate (name snapshot : String)
  | snapshotRestore (name snapshot : String)

/-- An operation with the process that runs it. -/
structure Action where
  operation : Operation
  host : Host
  umask : UInt32

def machineSpecFileMode : UInt32 := 0o600

/-- `atomic::write_with_mode` with the mode of specs. -/
def Action.writeWithMode (action : Action) (document : Bytes) : Atomic.File :=
  (⟨document, some machineSpecFileMode, action.umask⟩ : Atomic.Call).published

/-- `atomic::write`. -/
def Action.write (action : Action) (document : Bytes) : Atomic.File :=
  (⟨document, none, action.umask⟩ : Atomic.Call).published

def machineAlreadyExists (name : String) : FirestoneError :=
  (FirestoneError.new .alreadyExists ("machine `" ++ name ++ "` already exists")).withHint
    ("use `firestone show " ++ name ++ "` or choose another name")

/-- `ensure_machine_exists`. -/
def ensureMachineExists (store : Store) (name : String) : Res MachineFiles :=
  match store name with
  | some machine => .ok machine
  | none => .error ((FirestoneError.new .notFound ("no machine named `" ++ name ++ "`")).withHint
      "run `firestone ls` to list machines")

def ensureNoMachine (store : Store) (name : String) : Res Unit :=
  match store name with
  | some _ => .error (machineAlreadyExists name)
  | none => .ok ()

def Store.put (store : Store) (name : String) (machine : MachineFiles) : Store := Function.update store name (some machine)

/-- `initialize_machine`: the document a new machine starts with. -/
def Host.initialDocument (host : Host) (spec : MachineSpec) : Res Bytes := do
  let image ← host.imageReference spec
  host.renderSpec { spec with image := image }

def Action.perform (paths : Paths) (store : Store) (action : Action) : Res Store :=
  match action.operation with
  | .create name spec => do
    let _ ← paths.machineDir name
    let spec ← action.host.validate spec
    ensureNoMachine store name
    let document ← action.host.initialDocument spec
    return store.put name ⟨action.writeWithMode document, fun _ => none⟩
  | .createWithEdit name spec edited => do
    let _ ← paths.machineDir name
    let spec ← action.host.validate spec
    ensureNoMachine store name
    let document ← action.host.initialDocument spec
    let store := store.put name ⟨action.writeWithMode document, fun _ => none⟩
    let loaded ← action.host.load edited {}
    let _ ← action.host.imageReference loaded
    return store.put name ⟨action.writeWithMode edited, fun _ => none⟩
  | .clone source dest => do
    let _ ← paths.machineDir source
    let _ ← paths.machineDir dest
    if source = dest then
      .error ((FirestoneError.new .usage ("cannot clone machine `" ++ source ++ "` onto itself")).withHint
        "choose a destination name that differs from the source")
    else do
      let machine ← ensureMachineExists store source
      -- the document becomes the spec of the destination verbatim, and must load there
      let loaded ← action.host.load machine.spec.bytes {}
      ensureNoMachine store dest
      let _ ← action.host.imageReference loaded
      return store.put dest ⟨action.write machine.spec.bytes, fun _ => none⟩
  | .edit name edited => do
    let _ ← paths.machineDir name
    let machine ← ensureMachineExists store name
    let _ ← action.host.load edited {}
    return store.put name { machine with spec := action.writeWithMode edited }
  | .setSpec name spec => do
    let _ ← paths.machineDir name
    let machine ← ensureMachineExists store name
    let spec ← action.host.validate spec
    let document ← action.host.renderSpec spec
    return store.put name { machine with spec := action.writeWithMode document }
  | .patchSpec name patch => do
    let _ ← paths.machineDir name
    let machine ← ensureMachineExists store name
    let document ← (⟨.patchSpec patch, action.host.toSpecEnv, action.umask⟩ : SpecWriters.Action).update machine.spec.bytes
    return store.put name { machine with spec := action.writeWithMode document }
  | .resize name cpus memory =>
    if cpus = none ∧ memory = none then
      .error ((FirestoneError.new .usage ("resize of machine `" ++ name ++ "` requested no change")).withHint
        "pass --cpus N, --memory SIZE, or both")
    else do
      let _ ← paths.machineDir name
      let machine ← ensureMachineExists store name
      let document ←
        (⟨.resize cpus memory, action.host.toSpecEnv, action.umask⟩ : SpecWriters.Action).update machine.spec.bytes
      return store.put name { machine with spec := action.write document }
  | .snapshotCreate name snapshot => do
    let _ ← paths.machineDir name
    let machine ← ensureMachineExists store name
    match machine.snapshots snapshot with
    | some _ => .error ((FirestoneError.new .alreadyExists
        ("machine `" ++ name ++ "` already has a snapshot named `" ++ snapshot ++ "`")).withHint
        ("choose another name or run `firestone snapshot rm " ++ name ++ " " ++ snapshot ++ "`"))
    | none =>
      let snapshots := Function.update machine.snapshots snapshot (some machine.spec.bytes)
      return store.put name { machine with snapshots := snapshots }
  | .snapshotRestore name snapshot => do
    let _ ← paths.machineDir name
    let machine ← ensureMachineExists store name
    match machine.snapshots snapshot with
    | some document => return store.put name { machine with spec := action.writeWithMode document }
    | none => .error ((FirestoneError.new .notFound
        ("machine `" ++ name ++ "` has no snapshot named `" ++ snapshot ++ "`")).withHint
        ("run `firestone snapshot list " ++ name ++ "`"))

/-- Successful operations. -/
def step (paths : Paths) (store : Store) (action : Action) : Option Store := (action.perform paths store).toOption

/-! ## Modes -/

/-- The operations that publish the spec without a mode. -/
def Operation.unmoded : Operation → Bool
  | .clone _ _ | .resize _ _ _ => true
  | _ => false

/-- Every spec in the store is readable and writable by its owner, and by nobody else. -/
def Private (store : Store) : Prop := ∀ name machine, store name = some machine → machine.spec.mode = 0o600

/-- The umask makes up for a missing mode. -/
def Masked (_ : Store) (action : Action) : Prop := action.operation.unmoded = true → action.umask &&& 0o666 = 0o066

def Empty (store : Store) : Prop := ∀ name, store name = none

theorem and_not_eq_iff (umask : UInt32) : 0o666 &&& ~~~umask = 0o600 ↔ umask &&& 0o666 = 0o066 := by
  have hsplit : (0o666 : UInt32) &&& ~~~umask = 0o666 ^^^ (umask &&& 0o666) := by
    refine UInt32.toBitVec_inj.mp (BitVec.eq_of_getElem_eq fun i hi => ?_)
    simp only [UInt32.toBitVec_and, UInt32.toBitVec_not, UInt32.toBitVec_xor, BitVec.getElem_and, BitVec.getElem_not,
      BitVec.getElem_xor]
    cases umask.toBitVec[i] <;> simp
  rw [hsplit]
  constructor
  · intro h
    calc umask &&& 0o666 = 0o666 ^^^ (0o666 ^^^ (umask &&& 0o666)) := by rw [← UInt32.xor_assoc]; simp
      _ = 0o066 := by rw [h]; rfl
  · intro h
    rw [h]
    rfl

theorem write_mode_iff {action : Action} {document : Bytes} :
    (action.write document).mode = 0o600 ↔ action.umask &&& 0o666 = 0o066 := and_not_eq_iff action.umask

/-- What a successful operation publishes: the spec as it was, a spec with a mode, or one without. -/
inductive Publishes (store : Store) (action : Action) (name : String) (machine : MachineFiles) : Prop
  | kept (old : MachineFiles) (hold : store name = some old) (hspec : machine.spec = old.spec)
      (hop : action.operation.unmoded = false)
  | moded (document : Bytes) (hspec : machine.spec = action.writeWithMode document) (hop : action.operation.unmoded = false)
  | unmoded (document : Bytes) (hspec : machine.spec = action.write document) (hop : action.operation.unmoded = true)

theorem ensureMachineExists_ok {store : Store} {name : String} {machine : MachineFiles}
    (h : ensureMachineExists store name = .ok machine) : store name = some machine := by
  unfold ensureMachineExists at h
  split at h
  · rename_i hmachine
    cases h
    exact hmachine
  · cases h

theorem perform_publishes {paths : Paths} {store store' : Store} {action : Action}
    (h : action.perform paths store = .ok store') :
    ∃ name machine, store' = store.put name machine ∧ Publishes store action name machine := by
  obtain ⟨operation, host, umask⟩ := action
  cases operation with
  | create name spec =>
    obtain ⟨dir, -, h⟩ := Res.bind_ok h
    obtain ⟨valid, -, h⟩ := Res.bind_ok h
    obtain ⟨-, -, h⟩ := Res.bind_ok h
    obtain ⟨document, -, h⟩ := Res.bind_ok h
    cases h
    exact ⟨name, _, rfl, .moded document rfl rfl⟩
  | createWithEdit name spec edited =>
    obtain ⟨dir, -, h⟩ := Res.bind_ok h
    obtain ⟨valid, -, h⟩ := Res.bind_ok h
    obtain ⟨-, -, h⟩ := Res.bind_ok h
    obtain ⟨document, -, h⟩ := Res.bind_ok h
    obtain ⟨loaded, -, h⟩ := Res.bind_ok h
    obtain ⟨image, -, h⟩ := Res.bind_ok h
    cases h
    refine ⟨name, ⟨_, fun _ => none⟩, ?_, .moded edited rfl rfl⟩
    exact Function.update_idem _ _ _
  | clone source dest =>
    obtain ⟨sourceDir, -, h⟩ := Res.bind_ok h
    obtain ⟨destDir, -, h⟩ := Res.bind_ok h
    split at h
    · cases h
    · obtain ⟨machine, -, h⟩ := Res.bind_ok h
      obtain ⟨loaded, -, h⟩ := Res.bind_ok h
      obtain ⟨-, -, h⟩ := Res.bind_ok h
      obtain ⟨image, -, h⟩ := Res.bind_ok h
      cases h
      exact ⟨dest, _, rfl, .unmoded machine.spec.bytes rfl rfl⟩
  | edit name edited =>
    obtain ⟨dir, -, h⟩ := Res.bind_ok h
    obtain ⟨machine, -, h⟩ := Res.bind_ok h
    obtain ⟨loaded, -, h⟩ := Res.bind_ok h
    cases h
    exact ⟨name, _, rfl, .moded edited rfl rfl⟩
  | setSpec name spec =>
    obtain ⟨dir, -, h⟩ := Res.bind_ok h
    obtain ⟨machine, -, h⟩ := Res.bind_ok h
    obtain ⟨valid, -, h⟩ := Res.bind_ok h
    obtain ⟨document, -, h⟩ := Res.bind_ok h
    cases h
    exact ⟨name, _, rfl, .moded document rfl rfl⟩
  | patchSpec name patch =>
    obtain ⟨dir, -, h⟩ := Res.bind_ok h
    obtain ⟨machine, -, h⟩ := Res.bind_ok h
    obtain ⟨document, -, h⟩ := Res.bind_ok h
    cases h
    exact ⟨name, _, rfl, .moded document rfl rfl⟩
  | resize name cpus memory =>
    unfold Action.perform at h
    dsimp only at h
    split at h
    · cases h
    · obtain ⟨dir, -, h⟩ := Res.bind_ok h
      obtain ⟨machine, -, h⟩ := Res.bind_ok h
      obtain ⟨document, -, h⟩ := Res.bind_ok h
      cases h
      exact ⟨name, _, rfl, .unmoded document rfl rfl⟩
  | snapshotCreate name snapshot =>
    obtain ⟨dir, -, h⟩ := Res.bind_ok h
    obtain ⟨machine, hmachine, h⟩ := Res.bind_ok h
    split at h
    · cases h
    · cases h
      exact ⟨name, _, rfl, .kept machine (ensureMachineExists_ok hmachine) rfl rfl⟩
  | snapshotRestore name snapshot =>
    obtain ⟨dir, -, h⟩ := Res.bind_ok h
    obtain ⟨machine, -, h⟩ := Res.bind_ok h
    split at h
    · rename_i document hdocument
      cases h
      exact ⟨name, _, rfl, .moded document rfl rfl⟩
    · cases h

theorem step_publishes {paths : Paths} {store store' : Store} {action : Action} (h : step paths store action = some store') :
    ∃ name machine, store' = store.put name machine ∧ Publishes store action name machine := by
  unfold step at h
  cases hperform : action.perform paths store with
  | error e =>
    rw [hperform] at h
    cases h
  | ok t =>
    rw [hperform] at h
    cases h
    exact perform_publishes hperform

/-- One step of a private store leads to a private one exactly when it meets the condition. -/
theorem private_step {paths : Paths} {store store' : Store} {action : Action} (hs : step paths store action = some store')
    (h : Private store) : Private store' ↔ Masked store action := by
  obtain ⟨name, machine, rfl, hpub⟩ := step_publishes hs
  have hput : Private (store.put name machine) ↔ machine.spec.mode = 0o600 := by
    constructor
    · exact fun hp => hp name machine (Function.update_self ..)
    · intro hmode other found hfound
      by_cases hname : other = name
      · subst hname
        rw [Store.put, Function.update_self] at hfound
        cases hfound
        exact hmode
      · rw [Store.put, Function.update_of_ne hname] at hfound
        exact h other found hfound
  rw [hput]
  cases hpub with
  | kept old hold hspec hop =>
    rw [hspec]
    exact ⟨fun _ hun => absurd hun (by simp [hop]), fun _ => h name old hold⟩
  | moded document hspec hop =>
    rw [hspec]
    exact ⟨fun _ hun => absurd hun (by simp [hop]), fun _ => rfl⟩
  | unmoded document hspec hop =>
    rw [hspec, write_mode_iff]
    exact ⟨fun hmask _ => hmask, fun hmask => hmask hop⟩

/-- **The spec stays private** in every run whose steps all meet the condition; and a step that does not meet it makes a
spec of such a run public. -/
theorem reachable_private {paths : Paths} {store : Store} (h : Reachable (step paths) Masked Empty store) :
    Private store ∧ ∀ action store', step paths store action = some store' → (Private store' ↔ Masked store action) := by
  have hprivate : Private store := by
    induction h with
    | start hempty =>
      intro name machine hmachine
      rw [hempty name] at hmachine
      cases hmachine
    | next action hr hok hs ih => exact (private_step hs ih).mpr hok
  exact ⟨hprivate, fun action store' hs => private_step hs hprivate⟩

/-! ## Two machines -/

def sampleHost : Host := { sampleEnv with imageReference := fun spec => .ok spec.image }

def samplePaths : Paths := .ofHome ["/", "srv"]

/-- Creating, cloning and resizing. -/
def sampleActions (umask : UInt32) : List Action :=
  [⟨.create "web" (sampleSpec 2 2), sampleHost, umask⟩, ⟨.clone "web" "db", sampleHost, umask⟩,
    ⟨.resize "web" (some 4) none, sampleHost, umask⟩]

def emptyStore : Store := fun _ => none

theorem emptyStore_empty : Empty emptyStore := fun _ => rfl

def maskedCheck (_ : Store) (action : Action) : Bool := !action.operation.unmoded || action.umask &&& 0o666 == 0o066

theorem masked_of_check (store : Store) (action : Action) (h : maskedCheck store action = true) : Masked store action := by
  intro hun
  simpa [maskedCheck, hun] using h

/-- The three actions under two umasks, evaluated together for the text that they share. -/
theorem sample_runs :
    (run (step samplePaths) emptyStore (sampleActions 0o077)).any
      (fun store => (store "web").isSome && (store "db").isSome) = true ∧
    (run (step samplePaths) emptyStore (sampleActions 0o022)).any
      (fun store => (store "web").any (·.spec.mode == 0o644) && (store "db").any (·.spec.mode == 0o644)) = true := by
  decide +kernel

/-- Under the umask 0077 all three keep the spec private. -/
theorem reachable_private_077 : ∃ store, Reachable (step samplePaths) Masked Empty store ∧
    (store "web").isSome = true ∧ (store "db").isSome = true ∧ Private store := by
  obtain ⟨store, hstore, hsome⟩ := (Option.any_eq_true _ _).mp sample_runs.1
  obtain ⟨hweb, hdb⟩ := Bool.and_eq_true_iff.mp hsome
  have hmeet : StepsMeet (step samplePaths) Masked emptyStore (sampleActions 0o077) :=
    @StepsMeet.of_all _ _ _ _ (maskedCheck emptyStore) masked_of_check _ _ (by decide)
  have hr := (Reachable.start emptyStore_empty).run hmeet hstore
  exact ⟨store, hr, hweb, hdb, (reachable_private hr).1⟩

/-- Under the umask 0022 a clone and a resize leave a spec that everyone can read. -/
theorem public_spec : ¬ ∀ store, Reachable (step samplePaths) anyStep Empty store → Private store := by
  intro h
  obtain ⟨store, hstore, hmodes⟩ := (Option.any_eq_true _ _).mp sample_runs.2
  obtain ⟨machine, hmachine, hmode⟩ := (Option.any_eq_true _ _).mp (Bool.and_eq_true_iff.mp hmodes).1
  have hprivate := h store (reachable_of_run emptyStore_empty hstore) "web" machine hmachine
  rw [hprivate] at hmode
  revert hmode
  decide

end Firestone.Machine.SpecFiles
