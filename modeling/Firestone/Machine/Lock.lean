import Firestone.Lib.Runs

/-!
# The machine lock

`MachineLock::acquire` opens the lock file of a machine and then tries a non-blocking `flock` on the open file until it
succeeds or times out. The lock is on the inode that was open when the waiting began, while the guard is named by its
path. `remove_one` renames the machine directory, lock file included, to a tombstone; `prepare_machine_creation` makes a
new directory with a new lock file.

One machine name is modelled, with any number of processes. A process takes one file-system step at a time.

* `Pc` — where a process stands in its operation, with the lock file it has open.
* `advance` — the next file-system step of a process; `stop` is any error return, timeout or death of the process.
* `MutuallyExclusive` — no two processes hold the lock and have both passed `ensure_machine_exists`.
* `CheckIsCurrent` — the check passes only with the lock file that the lock path names, and not while a remover is
  between its rename and its release. Under it the lock excludes (`reachable_mutuallyExclusive`).
-/

namespace Firestone.Machine

open Firestone.Lib

/-! ## The machine directory -/

abbrev Pid := Nat

abbrev Inode := Nat

/-- Entries of a machine directory other than `lock` and `.creating`. -/
inductive Entry
  | spec | state | other (name : String)
  deriving DecidableEq, Repr

/-- The machine directory: the inode of `lock`, whether `.creating` is there, and the other entries. -/
structure MachineDir where
  lock : Option Inode
  creating : Bool
  entries : List Entry
  deriving DecidableEq, Repr

def MachineDir.empty : MachineDir := ⟨none, false, []⟩

def MachineDir.setCreating (d : MachineDir) (b : Bool) : MachineDir := { d with creating := b }

def MachineDir.setEntries (d : MachineDir) (es : List Entry) : MachineDir := { d with entries := es }

/-- `machine_publication_complete` of a directory whose spec and state can be read. -/
def MachineDir.publicationComplete (d : MachineDir) : Bool := .spec ∈ d.entries && .state ∈ d.entries

/-- `machine_has_non_lock_entries`. -/
def MachineDir.hasNonLockEntries (d : MachineDir) : Bool := d.creating || !d.entries.isEmpty

/-- The removal directory `.removing-<name>`. `remove_dir_all` empties it before it unlinks it. -/
inductive Tombstone
  | absent | emptied | full
  deriving DecidableEq, Repr

/-! ## Processes -/

/-- What a process does under the lock: a locked action, `remove_one`, or a creation. -/
inductive Op
  | action | remove | create
  deriving DecidableEq, Repr

/-- Where a creation stands after it took the lock. -/
inductive CreateStage
  | dirValidated
  | lockValidated
  | surveyed (markerExists : Bool)
  | clearing (todo : List Entry)
  | marking
  | marked
  | specWritten
  | stateWritten
  | published
  deriving DecidableEq, Repr

/-- Where a process stands. `file` is the lock file it has open. -/
inductive Pc
  | idle
  | entering (op : Op)
  | opening (op : Op)
  | trying (op : Op) (file : Inode) (contended : Bool)
  | locked (op : Op) (file : Inode)
  /-- `ensure_machine_exists` has seen the machine directory. -/
  | present (op : Op) (file : Inode)
  /-- `ensure_machine_exists` has validated it and reads `.creating` next. -/
  | validated (op : Op) (file : Inode)
  /-- `ensure_machine_exists` has returned `Ok`. -/
  | checked (op : Op) (file : Inode)
  /-- `remove_one` has found the tombstone path free. -/
  | cleared (file : Inode)
  /-- `remove_one` has renamed the directory and still holds the lock. -/
  | renamed (file : Inode)
  /-- `remove_one` has dropped the lock and deletes the tombstone. -/
  | released
  | creating (file : Inode) (stage : CreateStage)
  deriving DecidableEq, Repr

/-- The lock file a process holds. -/
@[grind =] def Pc.held : Pc → Option Inode
  | .locked _ i | .present _ i | .validated _ i | .checked _ i | .cleared i | .renamed i | .creating i _ => some i
  | _ => none

/-- Whether the check made after acquiring the lock has passed. -/
@[grind =] def Pc.passed : Pc → Bool
  | .checked _ _ | .cleared _ | .renamed _ => true
  | _ => false

/-- Whether the process has renamed the directory away. -/
def Pc.isRenamed : Pc → Bool
  | .renamed _ => true
  | _ => false

/-! ## States -/

/-- The file system of one machine, the kernel's lock table and the processes. -/
structure State where
  pc : Pid → Pc
  holder : Inode → Option Pid
  /-- The next free inode. -/
  next : Inode
  dir : Option MachineDir
  tombstone : Tombstone

/-- The inode the lock path names. -/
def State.lockPath (s : State) : Option Inode := s.dir.bind MachineDir.lock

def State.goto (s : State) (p : Pid) (c : Pc) : State := { s with pc := Function.update s.pc p c }

/-- The process closes its lock file, which drops its lock, and moves on. -/
def State.release (s : State) (p : Pid) (c : Pc) : State :=
  { s with pc := Function.update s.pc p c, holder := fun i => if s.holder i = some p then none else s.holder i }

def State.quit (s : State) (p : Pid) : State := s.release p .idle

def State.setDir (s : State) (d : MachineDir) : State := { s with dir := some d }

/-- A step that needs the machine directory; without it the operation returns an error. -/
def State.withDir (s : State) (p : Pid) (f : MachineDir → State) : State :=
  match s.dir with
  | none => s.quit p
  | some d => f d

/-! ## Steps -/

/-- `remove_dir_all` of the tombstone, one step. -/
def State.sweep (s : State) : State :=
  match s.tombstone with
  | .full => { s with tombstone := .emptied }
  | _ => { s with tombstone := .absent }

/-- `OpenOptions::create(true).open(lock_path)`. -/
def openLock (s : State) (p : Pid) (op : Op) : State :=
  s.withDir p fun d =>
    match d.lock with
    | some i => s.goto p (.trying op i false)
    | none =>
      { s with dir := some { d with lock := some s.next }, next := s.next + 1 }.goto p (.trying op s.next false)

/-- One non-blocking `flock`. -/
def tryLock (s : State) (p : Pid) (op : Op) (i : Inode) : State :=
  if s.holder i = none then
    { s with holder := Function.update s.holder i (some p) }.goto p (.locked op i)
  else s.goto p (.trying op i true)

/-- The last read of `ensure_machine_exists`: a missing `.creating` passes, also when the directory has gone. -/
def checkMarker (s : State) (p : Pid) (op : Op) (i : Inode) : State :=
  if s.dir.any MachineDir.creating then s.quit p else s.goto p (.checked op i)

/-- The steps of a creation under its lock: `prepare_machine_creation`, `initialize_machine` and the publication. -/
def createStep (s : State) (p : Pid) (i : Inode) : CreateStage → State
  | .dirValidated => s.withDir p fun d => if d.lock.isSome then s.goto p (.creating i .lockValidated) else s.quit p
  | .lockValidated => s.goto p (.creating i (.surveyed (s.dir.any MachineDir.creating)))
  | .surveyed markerExists =>
    if s.dir.any MachineDir.publicationComplete then
      if markerExists then (s.withDir p fun d => s.setDir (d.setCreating false)).quit p else s.quit p
    else s.withDir p fun d =>
      if markerExists then s.goto p (.creating i (.clearing d.entries))
      else if d.hasNonLockEntries then s.quit p
      else s.goto p (.creating i .marking)
  | .clearing [] => s.goto p (.creating i .marked)
  | .clearing (e :: todo) => s.withDir p fun d =>
    if e ∈ d.entries then (s.setDir (d.setEntries (d.entries.erase e))).goto p (.creating i (.clearing todo))
    else s.quit p
  | .marking => s.withDir p fun d => (s.setDir (d.setCreating true)).goto p (.creating i .marked)
  | .marked => s.withDir p fun d =>
    (s.setDir (d.setEntries (d.entries.insert .spec))).goto p (.creating i .specWritten)
  | .specWritten => s.withDir p fun d =>
    (s.setDir (d.setEntries (d.entries.insert .state))).goto p (.creating i .stateWritten)
  | .stateWritten => s.withDir p fun d =>
    if d.creating then (s.setDir (d.setCreating false)).goto p (.creating i .published) else s.quit p
  | .published => s.quit p

/-- The steps of `remove_one` after its check. -/
def clearTombstone (s : State) (p : Pid) (i : Inode) : State :=
  if s.tombstone = .absent then s.goto p (.cleared i) else s.sweep

/-- `fs::rename(machine_dir, tombstone)`, which fails over a directory that is not empty. -/
def renameDir (s : State) (p : Pid) (i : Inode) : State :=
  if s.dir = none ∨ s.tombstone = .full then s.quit p
  else { s with dir := none, tombstone := .full }.goto p (.renamed i)

/-- The last deletion of the tombstone; one that is already gone is an error and ends the operation too. -/
def finishRemoval (s : State) (p : Pid) : State :=
  match s.tombstone with
  | .full => s.sweep
  | _ => s.sweep.quit p

/-- The next file-system step of a process. -/
def advance (s : State) (p : Pid) : Pc → State
  | .idle => s
  | .entering .action => s.goto p (.opening .action)
  | .entering .remove => if s.lockPath.isSome then s.goto p (.opening .remove) else s.quit p
  | .entering .create => { s with dir := some (s.dir.getD .empty) }.goto p (.opening .create)
  | .opening op => openLock s p op
  | .trying op i _ => tryLock s p op i
  | .locked .create i => s.withDir p fun _ => s.goto p (.creating i .dirValidated)
  | .locked op i => s.withDir p fun _ => s.goto p (.present op i)
  | .present op i => s.withDir p fun _ => s.goto p (.validated op i)
  | .validated op i => checkMarker s p op i
  | .checked .remove i => clearTombstone s p i
  | .checked _ _ => s.quit p
  | .cleared i => renameDir s p i
  | .renamed _ => s.release p .released
  | .released => finishRemoval s p
  | .creating i stage => createStep s p i stage

/-- What a process can do next. -/
inductive Event
  | start (op : Op)
  | advance
  /-- A locked action writes the files of the machine. -/
  | write (entries : List Entry)
  /-- An error return, the lock timeout, or the death of the process. -/
  | stop
  deriving DecidableEq, Repr

/-- One step of one process. -/
def step (s : State) : Pid × Event → Option State
  | (p, .start op) => if s.pc p = .idle then some (s.goto p (.entering op)) else none
  | (p, .advance) => if s.pc p = .idle then none else some (advance s p (s.pc p))
  | (p, .write entries) =>
    match s.pc p, s.dir with
    | .checked .action _, some d => some (s.setDir (d.setEntries entries))
    | _, _ => none
  | (p, .stop) => if s.pc p = .idle then none else some (s.quit p)

/-- No process runs; the machine may exist in any condition. -/
structure Initial (s : State) : Prop where
  idle : ∀ p, s.pc p = .idle
  unlocked : ∀ i, s.holder i = none
  fresh : ∀ i, s.lockPath = some i → i < s.next

/-! ## Mutual exclusion -/

/-- The process holds a machine lock. -/
def State.Holds (s : State) (p : Pid) : Prop := ∃ i, s.holder i = some p

/-- At most one process holds the lock and has passed the check made after acquiring it. -/
def MutuallyExclusive (s : State) : Prop :=
  ∀ p q, s.Holds p → (s.pc p).passed → s.Holds q → (s.pc q).passed → p = q

/-- The lock path names the lock file `i` and no process has renamed the directory away while holding its lock. -/
def State.Current (s : State) (i : Inode) : Prop := s.lockPath = some i ∧ ∀ q, (s.pc q).isRenamed = false

/-- A step that passes the check is taken with a current lock file. -/
def CheckIsCurrent (s : State) : Pid × Event → Prop
  | (p, .advance) => ∀ op i, s.pc p = .validated op i → s.dir.any MachineDir.creating = false → s.Current i
  | _ => True

/-! ## What a step does to the locks -/

/-- The effect of a step of `p` on the lock table, on the lock path and on where `p` stands. -/
inductive Effect (s : State) (p : Pid) (s' : State) : Prop
  | moved (c : Pc) (hpc : s'.pc = Function.update s.pc p c) (hheld : c.held = (s.pc p).held)
      (hpassed : c.passed → (s.pc p).passed ∧ (s.pc p).isRenamed = false) (hren : c.isRenamed = false)
      (hholder : s'.holder = s.holder) (hlock : s.lockPath = none ∨ s'.lockPath = s.lockPath)
  | took (op : Op) (i : Inode) (hfree : s.holder i = none) (hnone : (s.pc p).held = none)
      (hpc : s'.pc = Function.update s.pc p (.locked op i)) (hholder : s'.holder = Function.update s.holder i (some p))
      (hlock : s'.lockPath = s.lockPath)
  | released (c : Pc) (hc : c.held = none) (hpc : s'.pc = Function.update s.pc p c)
      (hholder : s'.holder = fun i => if s.holder i = some p then none else s.holder i)
      (hlock : s.lockPath = none ∨ s'.lockPath = s.lockPath)
  | passed (op : Op) (i : Inode) (hat : s.pc p = .validated op i) (hmarker : s.dir.any MachineDir.creating = false)
      (hpc : s'.pc = Function.update s.pc p (.checked op i)) (hholder : s'.holder = s.holder)
      (hlock : s'.lockPath = s.lockPath)
  | renamed (i : Inode) (hat : s.pc p = .cleared i) (hpc : s'.pc = Function.update s.pc p (.renamed i))
      (hholder : s'.holder = s.holder) (hlock : s'.lockPath = none)

section effects

variable {s s' : State} {p : Pid}

/-- Returning closes the lock file; the directory may have changed before, but not its lock file. -/
theorem Effect.quit_of {t : State} (hpc : t.pc = s.pc) (hholder : t.holder = s.holder)
    (hlock : s.lockPath = none ∨ t.lockPath = s.lockPath) : Effect s p (t.quit p) :=
  .released .idle rfl (by simp [State.quit, State.release, hpc]) (by simp [State.quit, State.release, hholder]) hlock

theorem Effect.quit : Effect s p (s.quit p) := .quit_of rfl rfl (.inr rfl)

/-- Moving on with the same lock file, after a change of the directory that keeps its lock file. -/
theorem Effect.goto_of {t : State} {c : Pc} (hpc : t.pc = s.pc) (hholder : t.holder = s.holder)
    (hlock : s.lockPath = none ∨ t.lockPath = s.lockPath) (hheld : c.held = (s.pc p).held)
    (hpassed : c.passed → (s.pc p).passed ∧ (s.pc p).isRenamed = false) (hren : c.isRenamed = false) : Effect s p (t.goto p c) :=
  .moved c (by simp [State.goto, hpc]) hheld hpassed hren hholder hlock

theorem Effect.withDir {f : MachineDir → State} (h : ∀ d, s.dir = some d → Effect s p (f d)) :
    Effect s p (s.withDir p f) := by
  unfold State.withDir
  cases hd : s.dir with
  | none => exact .quit
  | some d => exact h d hd

theorem lockPath_setDir {d d' : MachineDir} (hd : s.dir = some d) (h : d'.lock = d.lock) :
    (s.setDir d').lockPath = s.lockPath := by
  simp [State.lockPath, State.setDir, hd, h]

theorem openLock_effect {op : Op} (h : s.pc p = .opening op) : Effect s p (openLock s p op) := by
  refine .withDir fun d hd => ?_
  have hheld : (s.pc p).held = none := by rw [h]; rfl
  cases hl : d.lock with
  | some i => exact .goto_of rfl rfl (.inr rfl) (by rw [hheld]; rfl) (by simp [Pc.passed]) rfl
  | none =>
    refine .goto_of rfl rfl (.inl ?_) (by rw [hheld]; rfl) (by simp [Pc.passed]) rfl
    simp [State.lockPath, hd, hl]

theorem tryLock_effect {op : Op} {i : Inode} {c : Bool} (h : s.pc p = .trying op i c) :
    Effect s p (tryLock s p op i) := by
  have hheld : (s.pc p).held = none := by rw [h]; rfl
  unfold tryLock
  split
  · rename_i hfree
    exact .took op i hfree hheld rfl rfl rfl
  · exact .goto_of rfl rfl (.inr rfl) (by rw [hheld]; rfl) (by simp [Pc.passed]) rfl

theorem createStep_effect {i : Inode} {stage : CreateStage} (h : s.pc p = .creating i stage) :
    Effect s p (createStep s p i stage) := by
  have hheld : (s.pc p).held = some i := by rw [h]; rfl
  -- A creation changes `.creating` and the entries, never the lock file.
  have hgoto : ∀ {t : State} (st : CreateStage), t.pc = s.pc → t.holder = s.holder → t.lockPath = s.lockPath →
      Effect s p (t.goto p (.creating i st)) := fun st h1 h2 h3 =>
    .goto_of h1 h2 (.inr h3) (by rw [hheld]; rfl) (by simp [Pc.passed]) rfl
  cases stage with
  | dirValidated =>
    refine .withDir fun d _ => ?_
    split
    · exact hgoto _ rfl rfl rfl
    · exact .quit
  | lockValidated => exact hgoto _ rfl rfl rfl
  | surveyed markerExists =>
    simp only [createStep]
    split
    · split
      · cases hd : s.dir with
        | none => simp_all
        | some d =>
          simp only [State.withDir, hd]
          exact .quit_of rfl rfl (.inr (lockPath_setDir hd rfl))
      · exact .quit
    · refine .withDir fun d _ => ?_
      split
      · exact hgoto _ rfl rfl rfl
      · split
        · exact .quit
        · exact hgoto _ rfl rfl rfl
  | clearing todo =>
    cases todo with
    | nil => exact hgoto _ rfl rfl rfl
    | cons e todo =>
      refine .withDir fun d hd => ?_
      split
      · exact hgoto _ rfl rfl (lockPath_setDir hd rfl)
      · exact .quit
  | marking => exact .withDir fun d hd => hgoto _ rfl rfl (lockPath_setDir hd rfl)
  | marked => exact .withDir fun d hd => hgoto _ rfl rfl (lockPath_setDir hd rfl)
  | specWritten => exact .withDir fun d hd => hgoto _ rfl rfl (lockPath_setDir hd rfl)
  | stateWritten =>
    refine .withDir fun d hd => ?_
    split
    · exact hgoto _ rfl rfl (lockPath_setDir hd rfl)
    · exact .quit
  | published => exact .quit

theorem sweep_keeps : s.sweep.pc = s.pc ∧ s.sweep.holder = s.holder ∧ s.sweep.lockPath = s.lockPath := by
  unfold State.sweep
  split <;> exact ⟨rfl, rfl, rfl⟩

/-- A step that leaves the process where it stands. -/
theorem Effect.stay (hpc : s'.pc = s.pc) (hholder : s'.holder = s.holder) (hlock : s'.lockPath = s.lockPath)
    (hren : (s.pc p).isRenamed = false) : Effect s p s' :=
  .moved (s.pc p) (by rw [hpc, Function.update_eq_self]) rfl (fun h => ⟨h, hren⟩) hren hholder (.inr hlock)

theorem advance_effect (hne : s.pc p ≠ .idle) : Effect s p (advance s p (s.pc p)) := by
  cases hc : s.pc p with
  | idle => exact absurd hc hne
  | entering op =>
    have hheld : (s.pc p).held = none := by rw [hc]; rfl
    cases op with
    | action => exact .goto_of rfl rfl (.inr rfl) (by rw [hheld]; rfl) (by simp [Pc.passed]) rfl
    | remove =>
      simp only [advance]
      split
      · exact .goto_of rfl rfl (.inr rfl) (by rw [hheld]; rfl) (by simp [Pc.passed]) rfl
      · exact .quit
    | create =>
      refine .goto_of rfl rfl ?_ (by rw [hheld]; rfl) (by simp [Pc.passed]) rfl
      cases hd : s.dir with
      | none => exact .inl (by simp [State.lockPath, hd])
      | some d => exact .inr (by simp [State.lockPath, hd])
  | opening op => exact openLock_effect hc
  | trying op i c => exact tryLock_effect hc
  | locked op i =>
    have hheld : (s.pc p).held = some i := by rw [hc]; rfl
    cases op with
    | create => exact .withDir fun _ _ => .goto_of rfl rfl (.inr rfl) (by rw [hheld]; rfl) (by simp [Pc.passed]) rfl
    | action => exact .withDir fun _ _ => .goto_of rfl rfl (.inr rfl) (by rw [hheld]; rfl) (by simp [Pc.passed]) rfl
    | remove => exact .withDir fun _ _ => .goto_of rfl rfl (.inr rfl) (by rw [hheld]; rfl) (by simp [Pc.passed]) rfl
  | present op i =>
    exact .withDir fun _ _ => .goto_of rfl rfl (.inr rfl) (by rw [hc]; rfl) (by simp [Pc.passed]) rfl
  | validated op i =>
    simp only [advance, checkMarker]
    split
    · exact .quit
    · rename_i hm
      exact .passed op i hc (by simpa using hm) rfl rfl rfl
  | checked op i =>
    cases op with
    | remove =>
      simp only [advance, clearTombstone]
      split
      · exact .goto_of rfl rfl (.inr rfl) (by rw [hc]; rfl) (by simp [Pc.passed, Pc.isRenamed, hc]) rfl
      · obtain ⟨h1, h2, h3⟩ := @sweep_keeps s
        exact .stay h1 h2 h3 (by rw [hc]; rfl)
    | action => exact .quit
    | create => exact .quit
  | cleared i =>
    simp only [advance, renameDir]
    split
    · exact .quit
    · exact .renamed i hc rfl rfl rfl
  | renamed i => exact .released .released rfl rfl rfl (.inr rfl)
  | released =>
    obtain ⟨h1, h2, h3⟩ := @sweep_keeps s
    simp only [advance, finishRemoval]
    split
    · exact .stay h1 h2 h3 (by rw [hc]; rfl)
    · exact .quit_of h1 h2 (.inr h3)
  | creating i stage => exact createStep_effect hc

/-- Every step has one of the five effects. -/
theorem step_effect {e : Event} (h : step s (p, e) = some s') : Effect s p s' := by
  cases e with
  | start op =>
    simp only [step] at h
    split at h
    · rename_i hc
      cases h
      exact .goto_of rfl rfl (.inr rfl) (by rw [hc]; rfl) (by simp [Pc.passed]) rfl
    · cases h
  | advance =>
    simp only [step] at h
    split at h
    · cases h
    · rename_i hc
      cases h
      exact advance_effect hc
  | write entries =>
    simp only [step] at h
    split at h
    · rename_i hc hd
      cases h
      exact .stay rfl rfl (lockPath_setDir hd rfl) (by rw [hc]; rfl)
    · cases h
  | stop =>
    simp only [step] at h
    split at h
    · cases h
    · cases h
      exact .quit

end effects

/-! ## The invariant -/

/-- The lock table agrees with the processes, a passed check is current until its process renames, and a process
that has renamed the directory is the only one that has passed the check. -/
structure Inv (s : State) : Prop where
  held : ∀ i p, s.holder i = some p ↔ (s.pc p).held = some i
  current : ∀ p, (s.pc p).passed → (s.pc p).isRenamed = false → s.lockPath = (s.pc p).held
  alone : ∀ p, (s.pc p).isRenamed → ∀ q, (s.pc q).passed → q = p

section invariant

variable {s s' : State} {p : Pid}

theorem Pc.held_of_passed {c : Pc} (h : c.passed) : ∃ i, c.held = some i := by
  cases c <;> simp_all [Pc.passed, Pc.held]

theorem Pc.passed_of_renamed {c : Pc} (h : c.isRenamed) : c.passed := by
  cases c <;> simp_all [Pc.passed, Pc.isRenamed]

theorem Pc.not_passed_of_held {c : Pc} (h : c.held = none) : c.passed = false := by
  cases c <;> simp_all [Pc.passed, Pc.held]

/-- Two processes that have passed the check with one lock file are one process. -/
theorem Inv.eq_of_held (h : Inv s) {q : Pid} {i : Inode} (hp : (s.pc p).held = some i) (hq : (s.pc q).held = some i) :
    p = q := by
  have h1 := (h.held i p).mpr hp
  have h2 := (h.held i q).mpr hq
  rw [h1] at h2
  exact Option.some.inj h2

theorem Inv.mutuallyExclusive (h : Inv s) : MutuallyExclusive s := by
  intro p q _ hp _ hq
  by_cases hrp : (s.pc p).isRenamed
  · exact (h.alone p hrp q hq).symm
  by_cases hrq : (s.pc q).isRenamed
  · exact h.alone q hrq p hp
  obtain ⟨i, hi⟩ := Pc.held_of_passed hp
  have hcp := h.current p hp (by simpa using hrp)
  have hcq := h.current q hq (by simpa using hrq)
  exact h.eq_of_held hi (by rw [← hcq, hcp, hi])

theorem Initial.inv (h : Initial s) : Inv s where
  held i p := by simp [h.unlocked, h.idle, Pc.held]
  current p := by simp [h.idle, Pc.passed]
  alone p := by simp [h.idle, Pc.isRenamed]

/-- The lock path is not changed under a process that has passed the check. -/
theorem Inv.current_keeps (h : Inv s) {q : Pid} (hq : (s.pc q).passed) (hr : (s.pc q).isRenamed = false)
    (hlock : s.lockPath = none ∨ s'.lockPath = s.lockPath) : s'.lockPath = (s.pc q).held := by
  have hc := h.current q hq hr
  obtain ⟨i, hi⟩ := Pc.held_of_passed hq
  rcases hlock with hn | hl
  · rw [hn, hi] at hc
    cases hc
  · rw [hl, hc]

theorem Inv.moved (h : Inv s) {c : Pc} (hpc : s'.pc = Function.update s.pc p c) (hheld : c.held = (s.pc p).held)
    (hpassed : c.passed → (s.pc p).passed ∧ (s.pc p).isRenamed = false) (hren : c.isRenamed = false)
    (hholder : s'.holder = s.holder) (hlock : s.lockPath = none ∨ s'.lockPath = s.lockPath) : Inv s' where
  held i q := by
    rw [hholder, h.held, hpc, Function.update_apply]
    split
    · rename_i hq
      rw [hq, hheld]
    · rfl
  current q hq hr := by
    rw [hpc, Function.update_apply] at hq hr ⊢
    split at hq
    · rename_i hqp
      rw [if_pos hqp, hheld]
      exact h.current_keeps (hpassed hq).1 (hpassed hq).2 hlock
    · rename_i hqp
      rw [if_neg hqp] at hr ⊢
      exact h.current_keeps hq hr hlock
  alone q hq r hr := by
    rw [hpc, Function.update_apply] at hq hr
    split at hq
    · rw [hren] at hq
      cases hq
    · split at hr
      · rename_i hrp
        rw [hrp]
        exact h.alone q hq p (hpassed hr).1
      · exact h.alone q hq r hr

theorem Inv.took (h : Inv s) {op : Op} {i : Inode} (hfree : s.holder i = none) (hnone : (s.pc p).held = none)
    (hpc : s'.pc = Function.update s.pc p (.locked op i)) (hholder : s'.holder = Function.update s.holder i (some p))
    (hlock : s'.lockPath = s.lockPath) : Inv s' where
  held j q := by
    rw [hholder, hpc, Function.update_apply, Function.update_apply]
    by_cases hj : j = i <;> by_cases hq : q = p
    · simp [hj, hq, Pc.held]
    · have hn : ¬ (s.pc q).held = some i := by rw [← h.held, hfree]; simp
      have hne : ¬ p = q := fun he => hq he.symm
      simp [hj, hq, hn, hne]
    · have hn : ¬ s.holder j = some p := by rw [h.held, hnone]; simp
      have hne : ¬ i = j := fun he => hj he.symm
      simp [hj, hq, hn, hne, Pc.held]
    · simp [hj, hq, h.held]
  current q hq hr := by
    rw [hpc, Function.update_apply] at hq hr ⊢
    split at hq
    · cases hq
    · rename_i hqp
      rw [if_neg hqp] at hr ⊢
      rw [hlock, h.current q hq hr]
  alone q hq r hr := by
    rw [hpc, Function.update_apply] at hq hr
    split at hq
    · cases hq
    · split at hr
      · cases hr
      · exact h.alone q hq r hr

theorem Inv.released (h : Inv s) {c : Pc} (hc : c.held = none) (hpc : s'.pc = Function.update s.pc p c)
    (hholder : s'.holder = fun i => if s.holder i = some p then none else s.holder i)
    (hlock : s.lockPath = none ∨ s'.lockPath = s.lockPath) : Inv s' where
  held i q := by
    simp only [hholder, hpc, Function.update_apply]
    by_cases hq : q = p
    · rw [if_pos hq, hc, hq]
      split <;> simp_all
    · rw [if_neg hq, ← h.held]
      split
      · rename_i hi
        simp [hi, Ne.symm hq]
      · rfl
  current q hq hr := by
    rw [hpc, Function.update_apply] at hq hr ⊢
    split at hq
    · rw [Pc.not_passed_of_held hc] at hq
      cases hq
    · rename_i hqp
      rw [if_neg hqp] at hr ⊢
      exact h.current_keeps hq hr hlock
  alone q hq r hr := by
    rw [hpc, Function.update_apply] at hq hr
    split at hq
    · have := Pc.passed_of_renamed hq
      rw [Pc.not_passed_of_held hc] at this
      cases this
    · split at hr
      · rw [Pc.not_passed_of_held hc] at hr
        cases hr
      · exact h.alone q hq r hr

/-- The only step that lets a process in. The condition on the step is used here and nowhere else. -/
theorem Inv.passed (h : Inv s) {op : Op} {i : Inode} (hat : s.pc p = .validated op i) (hcur : s.Current i)
    (hpc : s'.pc = Function.update s.pc p (.checked op i)) (hholder : s'.holder = s.holder)
    (hlock : s'.lockPath = s.lockPath) : Inv s' where
  held j q := by
    rw [hholder, h.held, hpc, Function.update_apply]
    split
    · rename_i hq
      rw [hq, hat]
      rfl
    · rfl
  current q hq hr := by
    rw [hpc, Function.update_apply] at hq hr ⊢
    split at hq
    · rename_i hqp
      rw [if_pos hqp, hlock]
      exact hcur.1
    · rename_i hqp
      rw [if_neg hqp] at hr ⊢
      rw [hlock, h.current q hq hr]
  alone q hq r _ := by
    rw [hpc, Function.update_apply] at hq
    split at hq
    · cases hq
    · rw [hcur.2 q] at hq
      cases hq

/-- A remover that renames holds the lock file of the path, so every process that has passed the check is itself. -/
theorem Inv.renamed (h : Inv s) {i : Inode} (hat : s.pc p = .cleared i)
    (hpc : s'.pc = Function.update s.pc p (.renamed i)) (hholder : s'.holder = s.holder) : Inv s' := by
  have hpp : (s.pc p).passed := by rw [hat]; rfl
  have hholds : ∀ q, s.Holds q ↔ ∃ j, (s.pc q).held = some j := fun q => by simp only [State.Holds, h.held]
  have honly : ∀ q, (s.pc q).passed → q = p := fun q hq =>
    h.mutuallyExclusive q p ((hholds q).mpr (Pc.held_of_passed hq)) hq
      ((hholds p).mpr (Pc.held_of_passed hpp)) hpp
  refine ⟨fun j q => ?_, fun q hq hr => ?_, fun q hq r hr => ?_⟩
  · rw [hholder, h.held, hpc, Function.update_apply]
    split
    · rename_i hq
      rw [hq, hat]
      rfl
    · rfl
  · rw [hpc, Function.update_apply] at hq hr
    split at hq
    · rename_i hqp
      rw [if_pos hqp] at hr
      cases hr
    · rename_i hqp
      exact absurd (honly q hq) hqp
  · have hin : ∀ r, (s'.pc r).passed → r = p := by
      intro r hr
      by_cases hrp : r = p
      · exact hrp
      · rw [hpc, Function.update_of_ne hrp] at hr
        exact honly r hr
    rw [hin r hr, hin q (Pc.passed_of_renamed hq)]

/-- **One step** that meets the condition keeps the invariant. -/
theorem Inv.step (h : Inv s) {e : Event} (hok : CheckIsCurrent s (p, e)) (hs : step s (p, e) = some s') : Inv s' := by
  cases step_effect hs with
  | moved c hpc hheld hpassed hren hholder hlock => exact h.moved hpc hheld hpassed hren hholder hlock
  | took op i hfree hnone hpc hholder hlock => exact h.took hfree hnone hpc hholder hlock
  | released c hc hpc hholder hlock => exact h.released hc hpc hholder hlock
  | passed op i hat hmarker hpc hholder hlock =>
    -- Only `advance` moves a process from `validated` to `checked`.
    cases e with
    | advance => exact h.passed hat (hok op i hat hmarker) hpc hholder hlock
    | start op' => simp [Machine.step, hat] at hs
    | write es => simp [Machine.step, hat] at hs
    | stop =>
      simp only [Machine.step, hat, reduceCtorEq, if_false, Option.some.injEq] at hs
      have hidle : s'.pc p = .idle := by
        rw [← hs]
        exact Function.update_self ..
      rw [hpc, Function.update_self] at hidle
      cases hidle
  | renamed i hat hpc hholder _ => exact h.renamed hat hpc hholder

end invariant

/-- **Exclusion**: in every run whose checks pass only with a current lock file, at most one process holds the machine
lock with its check passed. -/
theorem reachable_mutuallyExclusive {s : State} (h : Reachable step CheckIsCurrent Initial s) : MutuallyExclusive s :=
  Inv.mutuallyExclusive (h.invariant (fun _ => Initial.inv) fun _ _ _ hinv hok hs => Inv.step hinv hok hs)

/-- A published machine that no process works on. -/
def published : State where
  pc := fun _ => .idle
  holder := fun _ => none
  next := 1
  dir := some ⟨some 0, false, [.spec, .state]⟩
  tombstone := .absent

theorem published_initial : Initial published where
  idle := fun _ => rfl
  unlocked := fun _ => rfl
  fresh := by decide

/-- A process starts an operation and takes its first `n` steps. -/
def begins (p : Pid) (op : Op) (n : Nat) : List (Pid × Event) := (p, .start op) :: List.replicate n (p, .advance)

/-- An action alone on a published machine takes the lock and passes the check. -/
theorem reachable_mutuallyExclusive_action :
    ∃ s, Reachable step CheckIsCurrent Initial s ∧ s.Holds 0 ∧ (s.pc 0).passed ∧ MutuallyExclusive s := by
  have hrun : ∃ s, run step published (begins 0 .action 6) = some s ∧ s.holder 0 = some 0 ∧ (s.pc 0).passed := by
    refine ⟨_, rfl, ?_, ?_⟩ <;> decide
  have hmeet : StepsMeet step CheckIsCurrent published (begins 0 .action 6) := by
    refine .cons rfl trivial (.cons rfl (fun _ _ h => by cases h) (.cons rfl (fun _ _ h => by cases h) (.cons rfl
      (fun _ _ h => by cases h) (.cons rfl (fun _ _ h => by cases h) (.cons rfl (fun _ _ h => by cases h) (.cons rfl
      (fun _ _ h _ => ?_) trivial))))))
    cases h
    refine ⟨rfl, fun q => ?_⟩
    by_cases hq : q = 0
    · subst hq
      rfl
    · simp [State.goto, State.withDir, published, advance, openLock, tryLock, hq, Pc.isRenamed]
  obtain ⟨s, hs, hh, hp⟩ := hrun
  have hr := (Reachable.start published_initial).run hmeet hs
  exact ⟨s, hr, ⟨0, hh⟩, hp, reachable_mutuallyExclusive hr⟩

/-- A remover and a waiter open one lock file; the remover renames it away and lets go, a creation publishes the
machine anew, the waiter passes its check with the old lock file, and a fourth process passes with the new one. -/
def staleLockRun : List (Pid × Event) :=
  begins 0 .remove 7 ++ begins 1 .action 2 ++ [(0, .advance), (0, .advance)] ++ begins 2 .create 12 ++
    List.replicate 4 (1, .advance) ++ begins 3 .action 6

theorem staleLockRun_two_holders : ¬ ∀ s, Reachable step anyStep Initial s → MutuallyExclusive s := by
  intro h
  have hrun : (run step published staleLockRun).any (fun s =>
      (s.pc 1).passed && (s.pc 3).passed && s.holder 0 == some 1 && s.holder 1 == some 3) = true := by
    decide
  obtain ⟨s, hs, hcheck⟩ := Option.any_eq_true _ _ |>.mp hrun
  simp only [Bool.and_eq_true, beq_iff_eq] at hcheck
  obtain ⟨⟨⟨h1, h3⟩, hl1⟩, hl3⟩ := hcheck
  have heq : (1 : Pid) = 3 := h s (reachable_of_run published_initial hs) 1 3 ⟨0, hl1⟩ h1 ⟨1, hl3⟩ h3
  cases heq

end Firestone.Machine
