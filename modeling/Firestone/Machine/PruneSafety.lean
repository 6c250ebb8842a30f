import Firestone.Machine.PruneRuns

/-!
# Prune keeps the work in progress

Every operation is checked once, as a program: what it makes and has not yet published is guarded by a lock it holds,
and it drops a lock only with nothing left in progress under it (`Op.disciplined`, `PruneTarget.disciplined`). A run then
keeps three facts: every open lock file is the one its path names, every party follows the rest of its program, and who
has read an inactive status under the machine lock can rely on it.

* `Live` — these facts. They hold until prune renames the machine directory away; after that it deletes nothing more
  (`Retired`).
* `Live.exec` — one instruction keeps them.
* `prune_keepsWork` — in a run whose steps meet `AsIfLocked`, no step of prune deletes work in progress.
* `unlocked_deletions_lose_work` — without the condition both halves fail.
-/

namespace Firestone.Machine.PruneRuns

open Firestone.Lib
open Machine.Restore (SnapshotKind)
open Machine.Runtime (withoutPids startingState restoredState)

/-! ## The discipline of the programs -/

/-- What a party holds and has in progress. -/
structure Frame where
  prunes : Bool
  machine : Bool
  snapshots : Bool
  building : List Artefact
  launching : Bool

def Frame.idle (prunes : Bool) : Frame := ⟨prunes, false, false, [], false⟩

def Frame.locked (f : Frame) : LockFile → Bool
  | .machine => f.machine
  | .snapshots => f.snapshots

def Frame.setLocked (f : Frame) (l : LockFile) (b : Bool) : Frame :=
  match l with
  | .machine => { f with machine := b }
  | .snapshots => { f with snapshots := b }

def Frame.setBuilding (f : Frame) (as : List Artefact) : Frame := { f with building := as }

def Frame.setLaunching (f : Frame) (b : Bool) : Frame := { f with launching := b }

/-- Steps that prune may still take after it has renamed the machine directory away. -/
def Instr.harmless : Instr → Bool
  | .unlock _ | .sweepRemoval => true
  | _ => false

/-- What an instruction needs: the lock it works under, and no lock that it drops with work left in progress. -/
@[grind =] def Instr.pre (i : Instr) (rest : List Instr) (f : Frame) : Prop :=
  match i with
  | .openLock l => f.locked l = false
  | .unlock l => (∀ a ∈ f.building, a.guard ≠ l) ∧ (l = .machine → f.launching = false)
  | .readLive _ => f.locked .machine = false ∧ (∀ a ∈ f.building, a.guard ≠ .machine) ∧ f.launching = false
  | .readLocked _ => f.locked .machine = true
  | .beginCreation | .writeState _ | .writeRestored | .writeStarting | .writeStatus _ | .writeFinal _ | .spawnShim =>
    f.prunes = false ∧ f.locked .machine = true
  | .build a => f.prunes = false ∧ f.locked a.guard = true ∧ (a.guard = .machine → a = diskPartial)
  | .prepareRuntime | .adopt => f.prunes = false ∧ f.locked .machine = true
  | .ensureDir | .ensureSnapshots | .writeSpec | .finishCreation | .expectDisk _ | .removeDisk | .discard _ | .publish _
  | .ensureRuntime | .clearRuntime => f.prunes = false
  | .listMachine | .executePlan | .clearRemoval => f = .idle true
  | .removeMachine => f = .idle true ∧ rest = []
  | .deletePlanned a => f.prunes = true ∧ (a.guard = .snapshots → f.locked .snapshots = true)
  | .clearInactive => f.prunes = true ∧ f.locked .machine = true
  | .renameDir => f.prunes = true ∧ f.locked .machine = true ∧ rest.all Instr.harmless = true
  | .scanRuntime | .scanDir | .scanSnapshots | .scanRemoval | .clearUnpublished => f.prunes = true
  | .ensureExists | .lock _ | .expectLock | .sweepRemoval => True

/-- What a party holds and has in progress after an instruction. -/
@[grind =] def Instr.post : Instr → Frame → Frame
  | .lock l, f => f.setLocked l true
  | .unlock l, f => f.setLocked l false
  | .build a, f => f.setBuilding (a :: f.building)
  | .discard a, f | .publish a, f => f.setBuilding (f.building.filter (· ≠ a))
  | .prepareRuntime, f | .adopt, f => f.setLaunching true
  | .spawnShim, f | .clearRuntime, f => f.setLaunching false
  | _, f => f

/-- The code keeps the discipline to its end. -/
def Disciplined (f : Frame) (code : List Instr) : Prop := Follows Instr.pre Instr.post (.idle f.prunes) f code

section discipline

variable {f : Frame} {i : Instr} {rest code : List Instr}

@[simp] theorem setLocked_locked_self (f : Frame) (l : LockFile) (b : Bool) : (f.setLocked l b).locked l = b := by
  cases l <;> rfl

theorem setLocked_locked_of_ne {l l' : LockFile} (b : Bool) (h : l' ≠ l) :
    (f.setLocked l b).locked l' = f.locked l' := by
  cases l <;> cases l' <;> first | rfl | exact absurd rfl h

@[simp] theorem setLocked_prunes (f : Frame) (l : LockFile) (b : Bool) : (f.setLocked l b).prunes = f.prunes := by
  cases l <;> rfl

@[simp] theorem setLocked_building (f : Frame) (l : LockFile) (b : Bool) : (f.setLocked l b).building = f.building := by
  cases l <;> rfl

@[simp] theorem setLocked_launching (f : Frame) (l : LockFile) (b : Bool) :
    (f.setLocked l b).launching = f.launching := by
  cases l <;> rfl

theorem post_prunes (i : Instr) (f : Frame) : (i.post f).prunes = f.prunes := by
  cases i <;> simp [Instr.post, Frame.setBuilding, Frame.setLaunching]

theorem disciplined_cons : Disciplined f (i :: rest) ↔ i.pre rest f ∧ Disciplined (i.post f) rest := by
  rw [Disciplined, Disciplined, Follows, post_prunes]

theorem disciplined_nil : Disciplined f [] ↔ f = .idle f.prunes := .rfl

/-- What every party's frame satisfies. -/
structure Frame.Good (f : Frame) : Prop where
  guarded : ∀ a ∈ f.building, f.locked a.guard = true
  disk : ∀ a ∈ f.building, a.guard = .machine → a = diskPartial
  launched : f.launching = true → f.machine = true
  prune : f.prunes = true → f.building = [] ∧ f.launching = false

theorem Frame.Good.idle (b : Bool) : (Frame.idle b).Good := ⟨nofun, nofun, nofun, fun _ => ⟨rfl, rfl⟩⟩

theorem Frame.Good.setBuilding (h : f.Good) {as : List Artefact} (has : ∀ a ∈ as, a ∈ f.building) :
    (f.setBuilding as).Good := by
  refine ⟨fun a ha => ?_, fun a ha => h.disk a (has a ha), h.launched, fun hp => ⟨?_, (h.prune hp).2⟩⟩
  · have hg := h.guarded a (has a ha)
    cases hl : a.guard <;> rw [hl] at hg <;> exact hg
  · exact List.eq_nil_iff_forall_not_mem.mpr fun a ha => by
      have hin := has a ha
      rw [(h.prune hp).1] at hin
      cases hin

theorem Frame.Good.build (h : f.Good) {a : Artefact} (hp : f.prunes = false) (hl : f.locked a.guard = true)
    (hd : a.guard = .machine → a = diskPartial) : (f.setBuilding (a :: f.building)).Good := by
  refine ⟨fun b hb => ?_, fun b hb => ?_, h.launched, fun hp' => ?_⟩
  · have hg : f.locked b.guard = true := by
      rcases List.mem_cons.mp hb with rfl | hb
      · exact hl
      · exact h.guarded b hb
    cases hl : b.guard <;> rw [hl] at hg <;> exact hg
  · rcases List.mem_cons.mp hb with rfl | hb
    · exact hd
    · exact h.disk b hb
  · rw [show (f.setBuilding (a :: f.building)).prunes = f.prunes from rfl, hp] at hp'
    cases hp'

theorem Frame.Good.launch (h : f.Good) (hp : f.prunes = false) (hm : f.machine = true) : (f.setLaunching true).Good := by
  refine ⟨fun a ha => ?_, h.disk, fun _ => hm, fun hp' => ?_⟩
  · have hg := h.guarded a ha
    cases hl : a.guard <;> rw [hl] at hg <;> exact hg
  · rw [show (f.setLaunching true).prunes = f.prunes from rfl, hp] at hp'
    cases hp'

theorem Frame.Good.settle (h : f.Good) : (f.setLaunching false).Good := by
  refine ⟨fun a ha => ?_, h.disk, nofun, fun hp => ⟨(h.prune hp).1, rfl⟩⟩
  have hg := h.guarded a ha
  cases hl : a.guard <;> rw [hl] at hg <;> exact hg

theorem Frame.Good.lock (h : f.Good) (l : LockFile) : (f.setLocked l true).Good := by
  refine ⟨fun a ha => ?_, fun a ha => h.disk a (by simpa using ha), fun hl => ?_, fun hp => ?_⟩
  · have hg := h.guarded a (by simpa using ha)
    by_cases hal : a.guard = l
    · subst hal
      simp
    · rw [setLocked_locked_of_ne true hal]
      exact hg
  · cases l with
    | machine => rfl
    | snapshots => exact h.launched hl
  · simpa using h.prune (by simpa using hp)

/-- A lock may be dropped when nothing it guards is in progress. -/
theorem Frame.Good.unlock (h : f.Good) {l : LockFile} (hb : ∀ a ∈ f.building, a.guard ≠ l)
    (hm : l = .machine → f.launching = false) : (f.setLocked l false).Good := by
  refine ⟨fun a ha => ?_, fun a ha => h.disk a (by simpa using ha), fun hl => ?_, fun hp => ?_⟩
  · have ha : a ∈ f.building := by simpa using ha
    rw [setLocked_locked_of_ne false (hb a ha)]
    exact h.guarded a ha
  · cases l with
    | machine =>
      have hf : f.launching = true := hl
      rw [hm rfl] at hf
      cases hf
    | snapshots => exact h.launched hl
  · simpa using h.prune (by simpa using hp)

/-- **The frame of a party stays good.** -/
theorem Frame.Good.post (h : f.Good) (hpre : i.pre rest f) : (i.post f).Good := by
  cases i with
  | lock l => exact h.lock l
  | unlock l => exact h.unlock hpre.1 hpre.2
  | build a => exact h.build hpre.1 hpre.2.1 hpre.2.2
  | discard a => exact h.setBuilding fun b hb => (List.mem_filter.mp hb).1
  | publish a => exact h.setBuilding fun b hb => (List.mem_filter.mp hb).1
  | prepareRuntime => exact h.launch hpre.1 hpre.2
  | adopt => exact h.launch hpre.1 hpre.2
  | spawnShim => exact h.settle
  | clearRuntime => exact h.settle
  | _ => exact h

/-! ### The programs keep it -/

section programs

attribute [local simp] disciplined_cons disciplined_nil Instr.pre Instr.post Instr.harmless Frame.idle Frame.setLocked
  Frame.setBuilding Frame.setLaunching Frame.locked Artefact.guard

/-- Every operation but prune, alone. -/
theorem Op.disciplined {op : Op} (hop : ∀ b, op ≠ .prune b) : Disciplined (.idle false) op.program := by
  cases op
  case prune b => exact absurd rfl (hop b)
  case start b => cases b <;> simp [program, startProgram, buildProgram, diskPartial]
  case restore b b' _ => cases b <;> cases b' <;> simp [program, startProgram, buildProgram, diskPartial]
  case clone _ b => cases b <;> simp [program, buildProgram, diskPartial]
  case snapshotCreate kind _ => cases kind <;> simp [program, buildProgram]
  all_goals simp [program]

theorem Op.disciplined_prune (b : Bool) : Disciplined (.idle true) (Op.prune b).program := by
  cases b <;> simp [program]

theorem removeOneProgram_disciplined : Disciplined (.idle true) removeOneProgram := by
  simp [removeOneProgram]

/-- Prune holds nothing between two targets. -/
theorem PruneTarget.disciplined (t : PruneTarget) (h : Disciplined (.idle true) rest) :
    Disciplined (.idle true) (t.program ++ rest) := by
  cases t
  case runtimeDir b => cases b <;> simpa [program] using h
  all_goals simpa [program] using h

theorem plan_disciplined (ts : List PruneTarget) (h : Disciplined (.idle true) rest) :
    Disciplined (.idle true) (ts.flatMap PruneTarget.program ++ rest) := by
  induction ts with
  | nil => exact h
  | cons t ts ih =>
    rw [List.flatMap_cons, List.append_assoc]
    exact t.disciplined ih

theorem clearRemoval_disciplined (h : Disciplined (.idle true) rest) :
    Disciplined (.idle true) (.openLock .machine :: .lock .machine :: .sweepRemoval :: .unlock .machine :: rest) := by
  simpa using h

end programs

/-- The second read of a stale state. -/
theorem readLive_disciplined {r : Reader} (h : Disciplined f (.readLive r :: rest)) :
    Disciplined f (.openLock .machine :: .lock .machine :: .readLocked r :: .unlock .machine :: rest) := by
  obtain ⟨⟨hl, hb, hn⟩, hrest⟩ := disciplined_cons.mp h
  have hback : (f.setLocked .machine true).setLocked .machine false = f := by
    obtain ⟨_, m, _, _, _⟩ := f
    cases show m = false from hl
    rfl
  refine disciplined_cons.mpr ⟨hl, disciplined_cons.mpr ⟨trivial, disciplined_cons.mpr ⟨rfl, disciplined_cons.mpr
    ⟨⟨fun a ha => hb a ha, fun _ => hn⟩, ?_⟩⟩⟩⟩
  exact hback.symm ▸ hrest

end discipline

/-! ## The invariant -/

/-- What a party holds and has in progress. -/
def Sys.frame (s : Sys) (p : Party) : Frame :=
  ⟨p == .prune, s.locks.locked p .machine, s.locks.locked p .snapshots, (s.proc p).building, (s.proc p).launching⟩

/-- The state file records no active status. -/
def Sys.Inactive (s : Sys) : Prop := ∀ st, s.recorded = some st → st.status.isActive = false

/-- Every open lock file is the one its path names, and every party keeps the discipline. -/
structure Live (s : Sys) : Prop where
  sound : s.locks.Sound
  named : ∀ l i, s.locks.path l = some i → s.dir.isSome = true
  good : ∀ p, (s.frame p).Good
  disciplined : ∀ p, Disciplined (s.frame p) (s.proc p).code
  /-- Who has read an inactive status under the machine lock can rely on it. -/
  checked : ∀ p, (s.proc p).checked = true → s.locks.locked p .machine = true ∧ s.Inactive
  begun : (s.proc .prune).code ≠ [] → s.pruned = true

/-- Prune has renamed the machine directory away and has nothing left to delete. -/
structure Retired (s : Sys) : Prop where
  begun : s.pruned = true
  harmless : (s.proc .prune).code.all Instr.harmless = true
  building : (s.proc .prune).building = []
  settled : (s.proc .prune).launching = false

section live

variable {s t : Sys} {p : Party} {c : Choice} {i : Instr} {rest : List Instr}

theorem frame_locked (s : Sys) (p : Party) (l : LockFile) : (s.frame p).locked l = s.locks.locked p l := by
  cases l <;> rfl

@[simp] theorem edit_proc_self (s : Sys) (p : Party) (f : Proc → Proc) : (s.edit p f).proc p = f (s.proc p) :=
  Function.update_self ..

theorem edit_proc_of_ne {q : Party} (f : Proc → Proc) (h : q ≠ p) : (s.edit p f).proc q = s.proc q :=
  Function.update_of_ne h ..

theorem edit_frame (s : Sys) (p : Party) (f : Proc → Proc) : (s.edit p f).frame p =
    ⟨p == .prune, s.locks.locked p .machine, s.locks.locked p .snapshots, (f (s.proc p)).building,
      (f (s.proc p)).launching⟩ := by
  rw [Sys.frame, edit_proc_self]
  rfl

/-- **What a step of one party must keep.** A state write needs the machine lock; then nobody else relies on the state. -/
theorem Live.update (h : Live s) (hproc : ∀ q, q ≠ p → t.proc q = s.proc q)
    (hlocked : ∀ q, q ≠ p → t.locks.locked q = s.locks.locked q) (hsound : t.locks.Sound)
    (hnamed : ∀ l i, t.locks.path l = some i → t.dir.isSome = true) (hgood : (t.frame p).Good)
    (hdisc : Disciplined (t.frame p) (t.proc p).code)
    (hrec : s.locks.locked p .machine = true ∨ t.recorded = s.recorded)
    (hchecked : (t.proc p).checked = true → t.locks.locked p .machine = true ∧ t.Inactive)
    (hbegun : p = .prune → (t.proc p).code ≠ [] → t.pruned = true) (hpruned : s.pruned = true → t.pruned = true) :
    Live t := by
  have hframe : ∀ q, q ≠ p → t.frame q = s.frame q := by
    intro q hq
    simp only [Sys.frame, hproc q hq, hlocked q hq]
  refine ⟨hsound, hnamed, fun q => ?_, fun q => ?_, fun q hc => ?_, fun hc => ?_⟩
  · by_cases hq : q = p
    · exact hq ▸ hgood
    · exact hframe q hq ▸ h.good q
  · by_cases hq : q = p
    · exact hq ▸ hdisc
    · rw [hframe q hq, hproc q hq]
      exact h.disciplined q
  · by_cases hq : q = p
    · exact hq ▸ hchecked (hq ▸ hc)
    · rw [hproc q hq] at hc
      obtain ⟨hl, hin⟩ := h.checked q hc
      refine ⟨by rw [hlocked q hq]; exact hl, ?_⟩
      rcases hrec with hp | hr
      · exact absurd (h.sound.exclusive hl hp) hq
      · intro st hst
        exact hin st (hr ▸ hst)
  · by_cases hq : Party.prune = p
    · exact hbegun hq.symm (hq ▸ hc)
    · rw [hproc _ hq] at hc
      exact hpruned (h.begun hc)

/-- A step that leaves the locks alone. -/
theorem Live.edit (h : Live s) (hcode : (s.proc p).code = i :: rest) {f : Proc → Proc} (hp : t.proc = s.proc)
    (hl : t.locks = s.locks) (hb : t.pruned = s.pruned) (hd : s.dir.isSome = true → t.dir.isSome = true)
    (hframe : (t.edit p f).frame p = i.post (s.frame p)) (hrest : (f (s.proc p)).code = rest)
    (hrec : s.locks.locked p .machine = true ∨ t.recorded = s.recorded)
    (hchecked : (f (s.proc p)).checked = true → s.locks.locked p .machine = true ∧ t.Inactive) : Live (t.edit p f) := by
  have hdisc := disciplined_cons.mp (hcode ▸ h.disciplined p)
  refine h.update (fun q hq => ?_) (fun q _ => ?_) ?_ (fun l i hi => ?_) ?_ ?_ hrec (fun hc => ?_) (fun hq _ => ?_)
    (fun hs => ?_)
  · rw [edit_proc_of_ne f hq, hp]
  · rw [show (t.edit p f).locks = t.locks from rfl, hl]
  · exact hl ▸ h.sound
  · exact hd (h.named l i (hl ▸ hi))
  · exact hframe ▸ (h.good p).post hdisc.1
  · rw [hframe, edit_proc_self, hp, hrest]
    exact hdisc.2
  · rw [show (t.edit p f).locks = t.locks from rfl, hl]
    exact hchecked (by simpa [hp] using hc)
  · rw [show (t.edit p f).pruned = t.pruned from rfl, hb]
    exact h.begun (by simp [← hq, hcode])
  · rw [show (t.edit p f).pruned = t.pruned from rfl, hb]
    exact hs

/-- A step that changes neither the locks nor the state file. -/
theorem Live.moved (h : Live s) (hcode : (s.proc p).code = i :: rest) {f : Proc → Proc} (hp : t.proc = s.proc)
    (hl : t.locks = s.locks) (hb : t.pruned = s.pruned) (hd : s.dir.isSome = true → t.dir.isSome = true)
    (hframe : (t.edit p f).frame p = i.post (s.frame p)) (hrest : (f (s.proc p)).code = rest)
    (hrec : t.recorded = s.recorded) (hkept : (f (s.proc p)).checked = true → (s.proc p).checked = true) :
    Live (t.edit p f) := by
  refine h.edit hcode hp hl hb hd hframe hrest (.inr hrec) fun hc => ?_
  obtain ⟨hm, hin⟩ := h.checked p (hkept hc)
  exact ⟨hm, fun st hst => hin st (hrec ▸ hst)⟩

/-- A step of the files other than the state file. -/
theorem Live.goOn (h : Live s) (hcode : (s.proc p).code = i :: rest) (hp : t.proc = s.proc) (hl : t.locks = s.locks)
    (hb : t.pruned = s.pruned) (hd : s.dir.isSome = true → t.dir.isSome = true) (hrec : t.recorded = s.recorded)
    (hpost : i.post (s.frame p) = s.frame p) : Live (t.next p rest) := by
  refine h.moved hcode hp hl hb hd ?_ rfl hrec id
  rw [edit_frame, hpost, hp, hl]
  rfl

/-- An operation that returns, perhaps after a write of its own. -/
theorem Live.quit (h : Live s) (hp : ∀ q, q ≠ p → t.proc q = s.proc q) (hl : t.locks = s.locks) (hb : t.pruned = s.pruned)
    (hd : s.dir.isSome = true → t.dir.isSome = true)
    (hrec : s.locks.locked p .machine = true ∨ t.recorded = s.recorded) : Live (t.quit p) := by
  have hproc : (t.quit p).proc p = .idle := Function.update_self ..
  have hframe : (t.quit p).frame p = .idle (p == .prune) := by
    simp only [Sys.frame, Frame.idle, Sys.quit, FileLocks.closeAll, Function.update_self, Proc.idle]
  refine h.update (fun q hq => ?_) (fun q hq => ?_) ?_ (fun l i hi => ?_) ?_ ?_ hrec (fun hc => ?_) (fun _ hc => ?_)
    (fun hs => ?_)
  · rw [← hp q hq]
    exact Function.update_of_ne hq ..
  · rw [← hl]
    exact Function.update_of_ne hq ..
  · exact (hl ▸ h.sound).closeAll p
  · exact hd (h.named l i (hl ▸ hi))
  · exact hframe ▸ .idle _
  · rw [hframe, hproc]
    rfl
  · rw [hproc] at hc
    cases hc
  · rw [hproc] at hc
    exact absurd rfl hc
  · rw [show (t.quit p).pruned = t.pruned from rfl, hb]
    exact hs

theorem Live.withDir (h : Live s) {f : MachineDir → Sys} (hf : ∀ d, s.dir = some d → Live (f d)) :
    Live (s.withDir p f) := by
  unfold Sys.withDir
  cases hd : s.dir with
  | none => exact h.quit (fun _ _ => rfl) rfl rfl id (.inr rfl)
  | some d => exact hf d hd

theorem Live.withState (h : Live s) {f : MachineDir → MachineState → Sys}
    (hf : ∀ d st, s.dir = some d → d.state = some st → Live (f d st)) : Live (s.withState p f) := by
  refine h.withDir fun d hd => ?_
  cases hst : d.state with
  | none => exact h.quit (fun _ _ => rfl) rfl rfl id (.inr rfl)
  | some st => exact hf d st hd hst

/-- A step of the locks of one party. -/
theorem Live.lockStep (h : Live s) (hcode : (s.proc p).code = i :: rest) {k : FileLocks Party LockFile} {f : Proc → Proc}
    (hsound : k.Sound) (hpath : ∀ l i, k.path l = some i → s.dir.isSome = true)
    (hlocked : ∀ q, q ≠ p → k.locked q = s.locks.locked q)
    (hframe : ({ s with locks := k }.edit p f).frame p = i.post (s.frame p)) (hrest : (f (s.proc p)).code = rest)
    (hchecked : (f (s.proc p)).checked = true → k.locked p .machine = true ∧ (s.proc p).checked = true) :
    Live ({ s with locks := k }.edit p f) := by
  have hdisc := disciplined_cons.mp (hcode ▸ h.disciplined p)
  refine h.update (fun q hq => edit_proc_of_ne f hq) hlocked hsound hpath ?_ ?_ (.inr rfl) (fun hc => ?_)
    (fun hq _ => ?_) id
  · exact hframe ▸ (h.good p).post hdisc.1
  · rw [hframe, edit_proc_self, hrest]
    exact hdisc.2
  · obtain ⟨hm, hc'⟩ := hchecked (by simpa using hc)
    exact ⟨hm, (h.checked p hc').2⟩
  · exact h.begun (by simp [← hq, hcode])

theorem begin_proc_self (s : Sys) (p : Party) (op : Op) : (s.begin p op).proc p = .starting op :=
  Function.update_self ..

theorem begin_proc_of_ne {q : Party} (op : Op) (h : q ≠ p) : (s.begin p op).proc q = s.proc q :=
  Function.update_of_ne h ..

theorem Live.frame_idle (h : Live s) (hcode : (s.proc p).code = []) : s.frame p = .idle (p == .prune) :=
  disciplined_nil.mp (hcode ▸ h.disciplined p)

/-- An idle party begins a program that keeps the discipline. -/
theorem Live.begin (h : Live s) (hcode : (s.proc p).code = []) {op : Op}
    (hop : Disciplined (.idle (p == .prune)) op.program) : Live (s.begin p op) := by
  have hframe : (s.begin p op).frame p = .idle (p == .prune) := by
    have hidle := h.frame_idle hcode
    rw [Sys.frame, Frame.idle, Frame.mk.injEq] at hidle ⊢
    rw [begin_proc_self]
    exact ⟨rfl, hidle.2.1, hidle.2.2.1, rfl, rfl⟩
  refine h.update (fun q hq => begin_proc_of_ne op hq) (fun _ _ => rfl) h.sound h.named ?_ ?_ (.inr rfl) (fun hc => ?_)
    (fun hq _ => ?_) (fun hs => ?_)
  · exact hframe ▸ .idle _
  · rw [hframe, begin_proc_self]
    exact hop
  · rw [begin_proc_self] at hc
    cases hc
  · simp [Sys.begin, hq]
  · simp [Sys.begin, hs]

/-- The same step read again as another program. -/
theorem Live.recode (h : Live s) (hcode : (s.proc p).code ≠ []) {code : List Instr}
    (hd : Disciplined (s.frame p) code) : Live (s.next p code) := by
  have hframe : (s.next p code).frame p = s.frame p := edit_frame ..
  refine h.update (fun q hq => edit_proc_of_ne _ hq) (fun _ _ => rfl) h.sound h.named (hframe ▸ h.good p) ?_ (.inr rfl)
    (fun hc => h.checked p (by simpa [Sys.next] using hc)) (fun hq _ => h.begun (hq ▸ hcode)) id
  rw [hframe, Sys.next, edit_proc_self]
  exact hd

theorem recorded_some {d : MachineDir} (hd : s.dir = some d) : s.recorded = d.state := by
  simp [Sys.recorded, hd]

/-- A report of an inactive status that rewrites nothing is about an inactive state. -/
theorem reconcile_inactive {status : MachineStatus} {o : LivenessObservation}
    (h : (reconcile status o).status.isActive = false) (hn : (reconcile status o).rewrite = none) :
    status.isActive = false := by
  obtain ⟨ping, verified, exists_⟩ := o
  cases status <;> cases ping <;> cases verified <;> simp_all [reconcile, MachineStatus.isActive]

/-- A locked read that reports an inactive status leaves an inactive state file. -/
theorem rewritten_inactive {st : MachineState} (h : (reconcile st.status (s.observe c st)).status.isActive = false) :
    (rewritten s c st).status.isActive = false := by
  unfold rewritten reconciledState
  cases hr : (reconcile st.status (s.observe c st)).rewrite with
  | none => exact reconcile_inactive h hr
  | some reason => rfl

theorem Live.decide (h : Live s) (hcode : (s.proc p).code = i :: rest) (hpost : i.post (s.frame p) = s.frame p)
    {r : Reader} {status : MachineStatus} {locked : Bool} (hp : t.proc = s.proc) (hl : t.locks = s.locks)
    (hb : t.pruned = s.pruned) (hd : s.dir.isSome = true → t.dir.isSome = true)
    (hrec : s.locks.locked p .machine = true ∨ t.recorded = s.recorded)
    (hin : locked = true → status.isActive = false → s.locks.locked p .machine = true ∧ t.Inactive) :
    Live (decide t p rest r status locked) := by
  unfold PruneRuns.decide
  split
  · refine h.edit (t := { t with status := if r = Reader.pruneStatus then some status else t.status }) hcode hp hl hb hd
      ?_ rfl hrec fun hc => ?_
    · rw [hpost, edit_frame, hp, hl]
      rfl
    · obtain ⟨hl, hs⟩ := Bool.and_eq_true_iff.mp hc
      exact hin hl (by simpa using hs)
  · exact h.quit (fun q _ => by rw [hp]) hl hb hd hrec

theorem restored_inactive {st : MachineState} (h : st.status.isActive = false) :
    (restoredState st).status.isActive = false := by
  unfold restoredState
  split
  · rfl
  · exact h

/-- **One instruction keeps the invariant**, but for the rename of the machine directory. -/
theorem Live.exec (h : Live s) (hcode : (s.proc p).code = i :: rest) (hok : AsIfLocked s (p, .advance c))
    (hi : i ≠ .renameDir) : Live (exec s p c rest i) := by
  have hdisc := disciplined_cons.mp (hcode ▸ h.disciplined p)
  obtain ⟨hpre, hrest⟩ := hdisc
  cases i with
  | ensureDir =>
    refine h.goOn hcode rfl rfl rfl (fun _ => rfl) ?_ rfl
    cases hd : s.dir <;> simp [Sys.recorded, hd, MachineDir.empty]
  | ensureExists =>
    refine h.withDir fun d hd => ?_
    split
    · exact h.quit (fun _ _ => rfl) rfl rfl id (.inr rfl)
    · exact h.goOn hcode rfl rfl rfl id rfl rfl
  | ensureSnapshots =>
    refine h.withDir fun d hd => ?_
    exact h.goOn hcode rfl rfl rfl (fun _ => rfl) (recorded_some hd).symm rfl
  | openLock l =>
    have hopen : ∀ d, s.dir = some d → Live ({ s with locks := s.locks.openFile p l }.next p rest) := by
      intro d hd
      have hl : s.locks.locked p l = false := frame_locked s p l ▸ hpre
      refine h.lockStep hcode (h.sound.openFile hl) (fun _ _ _ => by rw [hd]; rfl)
        (fun q _ => congrFun (FileLocks.openFile_locked ..) q) ?_ rfl fun hc => ⟨?_, hc⟩
      · rw [edit_frame]
        simp only [FileLocks.openFile_locked]
        rfl
      · rw [FileLocks.openFile_locked]
        exact (h.checked p hc).1
    cases l with
    | machine => exact h.withDir fun d hd => hopen d hd
    | snapshots =>
      refine h.withDir fun d hd => ?_
      split
      · exact hopen d hd
      · exact h.quit (fun _ _ => rfl) rfl rfl id (.inr rfl)
  | lock l =>
    show Live (takeLock s p rest l)
    unfold takeLock
    cases hk : s.locks.tryLock p l with
    | none => exact h
    | some k =>
      obtain ⟨j, _, _, hkeq⟩ := FileLocks.tryLock_cases hk
      have hlocked : k.locked p = Function.update (s.locks.locked p) l true := by
        rw [hkeq]
        exact Function.update_self ..
      refine h.lockStep hcode (h.sound.tryLock hk) (fun m j hj => h.named m j (by rw [hkeq] at hj; exact hj))
        (fun q hq => by rw [hkeq]; exact Function.update_of_ne hq ..) ?_ rfl fun hc => ⟨?_, hc⟩
      · rw [edit_frame]
        simp only [hlocked]
        cases l <;> rfl
      · rw [hlocked, Function.update_apply]
        split
        · rfl
        · exact (h.checked p hc).1
  | unlock l =>
    have hlocked : (s.locks.close p l).locked p = Function.update (s.locks.locked p) l false := Function.update_self ..
    refine h.lockStep (f := fun P => { P with code := rest, checked := P.checked && l != LockFile.machine }) hcode
      (h.sound.close p l) h.named (fun q hq => Function.update_of_ne hq ..) ?_ rfl fun hc => ?_
    · rw [edit_frame]
      simp only [hlocked]
      cases l <;> rfl
    · obtain ⟨hc, hl⟩ := Bool.and_eq_true_iff.mp hc
      refine ⟨?_, hc⟩
      have hne : LockFile.machine ≠ l := fun heq => by
        subst heq
        cases hl
      rw [hlocked, Function.update_of_ne hne]
      exact (h.checked p hc).1
  | readLive r =>
    refine h.withState fun d st hd hst => ?_
    split
    · exact h.decide hcode rfl rfl rfl rfl id (.inr rfl) nofun
    · exact h.recode (by simp [hcode]) (readLive_disciplined (hcode ▸ h.disciplined p))
  | readLocked r =>
    refine h.withState fun d st hd hst => ?_
    refine h.decide hcode rfl rfl rfl rfl (fun _ => rfl) (.inl hpre) fun _ hin => ⟨hpre, fun st' hst' => ?_⟩
    cases hst'
    exact rewritten_inactive hin
  | beginCreation =>
    refine h.withDir fun d hd => ?_
    have hm : s.locks.locked p .machine = true := hpre.2
    split
    · exact h.quit (fun _ _ => rfl) rfl rfl (fun _ => rfl) (.inl hm)
    · split
      · rename_i hpub hcr
        have hclosed : s.locks.Closed .snapshots := by
          have hok' := hok
          simp only [AsIfLocked, hcode, List.head?_cons] at hok'
          exact hok' (by simp [hd, hcr, hpub])
        have hnone : (s.setDir d.cleared).Inactive := fun st hst => by cases hst
        have hframe : (Sys.next { s.setDir d.cleared with locks := s.locks.forget .snapshots } p rest).frame p = s.frame p :=
          edit_frame ..
        refine h.update (fun q hq => edit_proc_of_ne _ hq) (fun _ _ => rfl) (h.sound.forget hclosed)
          (fun _ _ _ => rfl) ?_ ?_ (.inl hm) (fun hc => ⟨hm, hnone⟩) (fun hq _ => h.begun (by simp [← hq, hcode])) id
        · exact hframe ▸ h.good p
        · rw [hframe, Sys.next, edit_proc_self]
          exact hrest
      · split
        · exact h.quit (fun _ _ => rfl) rfl rfl id (.inr rfl)
        · exact h.goOn hcode rfl rfl rfl (fun _ => rfl) (recorded_some hd).symm rfl
  | writeSpec =>
    refine h.withDir fun d hd => ?_
    exact h.goOn hcode rfl rfl rfl (fun _ => rfl) (recorded_some hd).symm rfl
  | writeState st =>
    refine h.withDir fun d hd => ?_
    refine h.edit hcode rfl rfl rfl (fun _ => rfl) (edit_frame ..) rfl (.inl hpre.2) fun _ =>
      ⟨hpre.2, fun st' hst' => ?_⟩
    cases hst'
    rfl
  | finishCreation =>
    refine h.withDir fun d hd => ?_
    split
    · exact h.goOn hcode rfl rfl rfl (fun _ => rfl) (recorded_some hd).symm rfl
    · exact h.quit (fun _ _ => rfl) rfl rfl id (.inr rfl)
  | expectDisk found =>
    refine h.withDir fun d hd => ?_
    split
    · exact h.goOn hcode rfl rfl rfl id rfl rfl
    · exact h.quit (fun _ _ => rfl) rfl rfl id (.inr rfl)
  | removeDisk =>
    refine h.withDir fun d hd => ?_
    exact h.goOn hcode rfl rfl rfl (fun _ => rfl) (recorded_some hd).symm rfl
  | discard a =>
    refine h.withDir fun d hd => ?_
    exact h.moved hcode rfl rfl rfl (fun _ => rfl) (edit_frame ..) rfl (recorded_some hd).symm id
  | build a =>
    refine h.withDir fun d hd => ?_
    exact h.moved hcode rfl rfl rfl (fun _ => rfl) (edit_frame ..) rfl (recorded_some hd).symm id
  | publish a =>
    refine h.withDir fun d hd => ?_
    split
    · exact h.moved hcode rfl rfl rfl (fun _ => rfl) (edit_frame ..) rfl (recorded_some hd).symm id
    · exact h.quit (fun _ _ => rfl) rfl rfl id (.inr rfl)
  | writeRestored =>
    refine h.withState fun d st hd hst => ?_
    refine h.edit hcode rfl rfl rfl (fun _ => rfl) (edit_frame ..) rfl (.inl hpre.2) fun hc =>
      ⟨hpre.2, fun st' hst' => ?_⟩
    cases hst'
    exact restored_inactive ((h.checked p hc).2 st (by rw [recorded_some hd, hst]))
  | prepareRuntime =>
    refine h.withState fun d st hd hst => ?_
    exact h.moved hcode rfl rfl rfl id (edit_frame ..) rfl rfl id
  | ensureRuntime => exact h.goOn hcode rfl rfl rfl id rfl rfl
  | writeStarting =>
    refine h.withState fun d st hd hst => ?_
    exact h.edit hcode rfl rfl rfl (fun _ => rfl) (edit_frame ..) rfl (.inl hpre.2) nofun
  | spawnShim =>
    refine h.withState fun d st hd hst => ?_
    split
    · rename_i hfree
      obtain ⟨hfree, hne⟩ := hfree
      have hbegin : Live (s.begin (.process c.pid) .shim) := h.begin hfree (Op.disciplined nofun)
      have hproc : (s.begin (.process c.pid) .shim).proc p = s.proc p := begin_proc_of_ne .shim hne
      have hframe : (s.begin (.process c.pid) .shim).frame p = s.frame p := by rw [Sys.frame, hproc]; rfl
      refine hbegin.edit (t := (s.writeState d _).begin (.process c.pid) .shim) (by rw [hproc]; exact hcode) rfl rfl rfl
        (fun _ => rfl) ?_ rfl (.inl hpre.2) nofun
      rw [edit_frame, hframe, show ((s.writeState d _).begin (.process c.pid) .shim).proc p = s.proc p from hproc]
      rfl
    · exact h
  | adopt =>
    refine h.withState fun d st hd hst => ?_
    split
    · exact h.moved hcode rfl rfl rfl id (edit_frame ..) rfl rfl id
    · exact h.quit (fun _ _ => rfl) rfl rfl id (.inr rfl)
  | writeStatus status =>
    refine h.withState fun d st hd hst => ?_
    exact h.edit hcode rfl rfl rfl (fun _ => rfl) (edit_frame ..) rfl (.inl hpre.2) nofun
  | writeFinal status =>
    refine h.withState fun d st hd hst => ?_
    exact h.edit hcode rfl rfl rfl (fun _ => rfl) (edit_frame ..) rfl (.inl hpre.2) nofun
  | clearRuntime =>
    exact h.moved (f := fun P => { P with code := rest, launching := false }) hcode rfl rfl rfl id (edit_frame ..) rfl
      rfl id
  | listMachine =>
    have hidle : s.frame p = .idle true := hpre
    show Live (if _ then _ else _)
    split
    · refine h.recode (by simp [hcode]) (disciplined_cons.mpr ⟨?_, hrest⟩)
      rw [hidle]
      exact ⟨rfl, nofun, rfl⟩
    · exact h.goOn hcode rfl rfl rfl id rfl rfl
  | scanRuntime => exact h.goOn hcode rfl rfl rfl id rfl rfl
  | scanDir => exact h.goOn hcode rfl rfl rfl id rfl rfl
  | scanSnapshots => exact h.goOn hcode rfl rfl rfl id rfl rfl
  | scanRemoval => exact h.goOn hcode rfl rfl rfl id rfl rfl
  | executePlan =>
    have hidle : s.frame p = .idle true := hpre
    refine h.recode (by simp [hcode]) ?_
    rw [hidle]
    exact plan_disciplined _ (hidle ▸ hrest)
  | removeMachine =>
    have hidle : s.frame p = .idle true := hpre.1
    have hend : rest = [] := hpre.2
    subst hend
    show Live (if _ then _ else _)
    split
    · refine h.recode (by simp [hcode]) ?_
      rw [hidle, List.append_nil]
      exact removeOneProgram_disciplined
    · exact h.goOn hcode rfl rfl rfl id rfl rfl
  | deletePlanned a =>
    refine h.goOn hcode rfl rfl rfl (fun hs => by rw [Option.isSome_map]; exact hs) ?_ rfl
    cases hd : s.dir <;> simp [Sys.recorded, hd, MachineDir.remove]
  | clearInactive => exact h.goOn hcode rfl rfl rfl id rfl rfl
  | clearUnpublished => exact h.goOn hcode rfl rfl rfl id rfl rfl
  | clearRemoval =>
    have hidle : s.frame p = .idle true := hpre
    show Live (if _ then _ else _)
    split
    · refine h.recode (by simp [hcode]) ?_
      rw [hidle]
      exact clearRemoval_disciplined (hidle ▸ hrest)
    · refine h.recode (by simp [hcode]) (disciplined_cons.mpr ⟨trivial, ?_⟩)
      exact hrest
  | expectLock =>
    show Live (if _ then _ else _)
    split
    · exact h.goOn hcode rfl rfl rfl id rfl rfl
    · exact h.quit (fun _ _ => rfl) rfl rfl id (.inr rfl)
  | renameDir => exact absurd rfl hi
  | sweepRemoval => exact h.goOn hcode rfl rfl rfl id rfl rfl

/-- An error return keeps the invariant; a launch that takes its status back holds the machine lock. -/
theorem Live.fail (h : Live s) : Live (fail s p) := by
  unfold PruneRuns.fail
  cases hd : s.dir with
  | none => exact h.quit (fun _ _ => rfl) rfl rfl (fun hs => by rw [hd] at hs; cases hs) (.inr rfl)
  | some d =>
    refine h.quit (fun _ _ => rfl) rfl rfl (fun _ => rfl) ?_
    cases hl : (s.proc p).launching with
    | true => exact .inl ((h.good p).launched hl)
    | false =>
      right
      rw [recorded_some hd]
      rfl

end live

/-! ## After the rename -/

/-- A step that leaves prune where it was. -/
def Aside (s t : Sys) : Prop := t.proc .prune = s.proc .prune ∧ t.pruned = s.pruned

section aside

variable {s t : Sys} {p : Party} {c : Choice} {i : Instr} {rest : List Instr}

theorem Aside.edit (hp : p ≠ .prune) {f : Proc → Proc} (h : Aside s t) : Aside s (t.edit p f) :=
  ⟨(edit_proc_of_ne f (Ne.symm hp)).trans h.1, h.2⟩

theorem Aside.quit (hp : p ≠ .prune) (h : Aside s t) : Aside s (t.quit p) :=
  ⟨(Function.update_of_ne (Ne.symm hp) ..).trans h.1, h.2⟩

theorem Aside.ite {q : Prop} [Decidable q] {t' : Sys} (h : Aside s t) (h' : Aside s t') :
    Aside s (if q then t else t') := by
  split
  · exact h
  · exact h'

theorem Aside.withDir (hp : p ≠ .prune) {f : MachineDir → Sys} (h : ∀ d, Aside s (f d)) : Aside s (s.withDir p f) := by
  unfold Sys.withDir
  cases s.dir with
  | none => exact .quit hp ⟨rfl, rfl⟩
  | some d => exact h d

theorem Aside.withState (hp : p ≠ .prune) {f : MachineDir → MachineState → Sys} (h : ∀ d st, Aside s (f d st)) :
    Aside s (s.withState p f) := by
  refine .withDir hp fun d => ?_
  cases d.state with
  | none => exact .quit hp ⟨rfl, rfl⟩
  | some st => exact h d st

theorem Aside.decide (hp : p ≠ .prune) {r : Reader} {status : MachineStatus} {locked : Bool} (h : Aside s t) :
    Aside s (decide t p rest r status locked) := by
  unfold PruneRuns.decide
  exact .ite (.edit hp h) (.quit hp h)

/-- A step of a process leaves prune where it was. -/
theorem exec_aside (hp : p ≠ .prune) : Aside s (exec s p c rest i) := by
  have hs : Aside s s := ⟨rfl, rfl⟩
  cases i with
  | openLock l => cases l with
    | machine => exact .withDir hp fun d => .edit hp ⟨rfl, rfl⟩
    | snapshots => exact .withDir hp fun d => .ite (.edit hp ⟨rfl, rfl⟩) (.quit hp hs)
  | lock l =>
    show Aside s (takeLock s p rest l)
    unfold takeLock
    split
    · exact .edit hp ⟨rfl, rfl⟩
    · exact hs
  | readLive r => exact .withState hp fun d st => .ite (.decide hp hs) (.edit hp hs)
  | readLocked r => exact .withState hp fun d st => .decide hp ⟨rfl, rfl⟩
  | beginCreation =>
    exact .withDir hp fun d => .ite (.quit hp ⟨rfl, rfl⟩)
      (.ite (.edit hp ⟨rfl, rfl⟩) (.ite (.quit hp hs) (.edit hp ⟨rfl, rfl⟩)))
  | spawnShim =>
    refine .withState hp fun d st => .ite (.edit hp ⟨?_, ?_⟩) hs
    · exact begin_proc_of_ne .shim nofun
    · exact Bool.or_false _
  | ensureExists => exact .withDir hp fun d => .ite (.quit hp hs) (.edit hp hs)
  | finishCreation => exact .withDir hp fun d => .ite (.edit hp ⟨rfl, rfl⟩) (.quit hp hs)
  | expectDisk found => exact .withDir hp fun d => .ite (.edit hp hs) (.quit hp hs)
  | publish a => exact .withDir hp fun d => .ite (.edit hp ⟨rfl, rfl⟩) (.quit hp hs)
  | adopt => exact .withState hp fun d st => .ite (.edit hp hs) (.quit hp hs)
  | listMachine => exact .ite (.edit hp hs) (.edit hp hs)
  | removeMachine => exact .ite (.edit hp hs) (.edit hp hs)
  | clearRemoval => exact .ite (.edit hp hs) (.edit hp hs)
  | expectLock => exact .ite (.edit hp hs) (.quit hp hs)
  | ensureDir | ensureRuntime | unlock _ | clearRuntime | scanRuntime | scanDir | scanSnapshots | scanRemoval
  | executePlan | deletePlanned _ | clearInactive | clearUnpublished | sweepRemoval =>
    simp only [PruneRuns.exec]
    exact .edit hp ⟨rfl, rfl⟩
  | ensureSnapshots | writeSpec | writeState _ | removeDisk | discard _ | build _ | renameDir =>
    exact .withDir hp fun d => .edit hp ⟨rfl, rfl⟩
  | writeRestored | prepareRuntime | writeStarting | writeStatus _ | writeFinal _ =>
    exact .withState hp fun d st => .edit hp ⟨rfl, rfl⟩

theorem fail_aside (hp : p ≠ .prune) : Aside s (fail s p) := by
  unfold PruneRuns.fail
  cases s.dir <;> exact .quit hp ⟨rfl, rfl⟩

theorem Retired.aside (h : Retired s) (ha : Aside s t) : Retired t :=
  ⟨ha.2 ▸ h.begun, ha.1 ▸ h.harmless, ha.1 ▸ h.building, ha.1 ▸ h.settled⟩

/-- Prune has returned. -/
theorem Retired.quit (h : Retired s) (hb : t.pruned = s.pruned) : Retired (t.quit .prune) := by
  have hproc : (t.quit .prune).proc .prune = .idle := by simp [Sys.quit]
  exact ⟨hb ▸ h.begun, by rw [hproc]; rfl, by rw [hproc]; rfl, by rw [hproc]; rfl⟩

theorem Retired.edit (h : Retired s) {f : Proc → Proc} (hp : t.proc = s.proc) (hb : t.pruned = s.pruned)
    (hf : (f (s.proc .prune)).code.all Instr.harmless = true)
    (hbuild : (f (s.proc .prune)).building = (s.proc .prune).building)
    (hlaunch : (f (s.proc .prune)).launching = (s.proc .prune).launching) : Retired (t.edit .prune f) := by
  have hproc : (t.edit .prune f).proc .prune = f (s.proc .prune) := by rw [edit_proc_self, hp]
  exact ⟨hb ▸ h.begun, by rw [hproc]; exact hf, by rw [hproc, hbuild]; exact h.building,
    by rw [hproc, hlaunch]; exact h.settled⟩

/-- What is left to do after the rename: the lock and the tombstone go. -/
theorem Retired.exec (h : Retired s) (hcode : (s.proc .prune).code = i :: rest) :
    Retired (exec s .prune c rest i) ∧ (exec s .prune c rest i).dir = s.dir ∧
      (exec s .prune c rest i).runtime = s.runtime := by
  have hh := h.harmless
  rw [hcode, List.all_cons, Bool.and_eq_true] at hh
  obtain ⟨hi, hrest⟩ := hh
  cases i with
  | unlock l =>
    simp only [PruneRuns.exec]
    exact ⟨h.edit rfl rfl hrest rfl rfl, rfl, rfl⟩
  | sweepRemoval =>
    simp only [PruneRuns.exec]
    exact ⟨h.edit rfl rfl hrest rfl rfl, rfl, rfl⟩
  | _ => cases hi

/-- The rename is the last thing prune does to the machine directory. -/
theorem Live.rename (h : Live s) (hcode : (s.proc p).code = .renameDir :: rest) :
    Live (PruneRuns.exec s p c rest .renameDir) ∨ Retired (PruneRuns.exec s p c rest .renameDir) := by
  obtain ⟨⟨hp, -, hrest⟩, -⟩ := disciplined_cons.mp (hcode ▸ h.disciplined p)
  have hprune : p = .prune := by simpa [Sys.frame] using hp
  subst hprune
  obtain ⟨hb, hl⟩ := (h.good .prune).prune rfl
  cases hd : s.dir with
  | none =>
    left
    simp only [PruneRuns.exec, Sys.withDir, hd]
    exact h.quit (fun _ _ => rfl) rfl rfl id (.inr rfl)
  | some d =>
    right
    simp only [PruneRuns.exec, Sys.withDir, hd, Sys.next]
    refine ⟨h.begun (by simp [hcode]), ?_, ?_, ?_⟩ <;> rw [edit_proc_self]
    · exact hrest
    · exact hb
    · exact hl

end aside

/-! ## What prune leaves -/

section safety

variable {s s' t : Sys} {c : Choice} {i : Instr} {rest : List Instr}

theorem KeepsWork.same (hd : ∀ a, t.has a = s.has a) (hr : t.runtime = s.runtime) : KeepsWork s t :=
  ⟨fun _ a _ ha => (hd a).trans ha, fun _ h => hr.trans h⟩

theorem KeepsWork.withDir {f : MachineDir → Sys} {p : Party} (h : ∀ d, s.dir = some d → KeepsWork s (f d)) :
    KeepsWork s (s.withDir p f) := by
  unfold Sys.withDir
  cases hd : s.dir with
  | none => exact .same (fun _ => rfl) rfl
  | some d => exact h d hd

theorem KeepsWork.withState {f : MachineDir → MachineState → Sys} {p : Party}
    (h : ∀ d st, s.dir = some d → KeepsWork s (f d st)) : KeepsWork s (s.withState p f) := by
  refine .withDir fun d hd => ?_
  cases d.state with
  | none => exact .same (fun _ => rfl) rfl
  | some st => exact h d st hd

theorem KeepsWork.decide {p : Party} {r : Reader} {status : MachineStatus} {locked : Bool} (hd : ∀ a, t.has a = s.has a)
    (hr : t.runtime = s.runtime) : KeepsWork s (PruneRuns.decide t p rest r status locked) := by
  unfold PruneRuns.decide
  split
  · exact .same hd hr
  · exact .same hd hr

/-- Whoever has a work file in progress is not prune. -/
theorem Live.builder_ne (h : Live s) {q : Party} {a : Artefact} (ha : a ∈ (s.proc q).building) : q ≠ .prune := by
  rintro rfl
  have hb : (s.proc .prune).building = [] := ((h.good .prune).prune rfl).1
  rw [hb] at ha
  cases ha

theorem Live.builder_locked (h : Live s) {q : Party} {a : Artefact} (ha : a ∈ (s.proc q).building) :
    s.locks.locked q a.guard = true :=
  frame_locked s q a.guard ▸ (h.good q).guarded a ha

/-- While prune has a lock, nobody has work in progress under it. -/
theorem Live.not_building (h : Live s) {q : Party} {a : Artefact} (hl : s.locks.locked .prune a.guard = true)
    (ha : a ∈ (s.proc q).building) : False :=
  h.builder_ne ha (h.sound.exclusive (h.builder_locked ha) hl)

theorem Live.launcher_locked (h : Live s) {q : Party} (hq : (s.proc q).launching = true) :
    q ≠ .prune ∧ s.locks.locked q .machine = true := by
  refine ⟨?_, (h.good q).launched hq⟩
  rintro rfl
  have hl : (s.proc .prune).launching = false := ((h.good .prune).prune rfl).2
  rw [hl] at hq
  cases hq

/-- A machine whose state prune has read as inactive, under its lock, is not active. -/
theorem Live.not_active_of_checked (h : Live s) (hc : (s.proc .prune).checked = true) : ¬ s.Active := by
  obtain ⟨hm, hin⟩ := h.checked .prune hc
  rintro (⟨st, hst, hact⟩ | ⟨q, hq⟩)
  · rw [hin st hst] at hact
    cases hact
  · obtain ⟨hne, hl⟩ := h.launcher_locked hq
    exact hne (h.sound.exclusive hl hm)

/-- A name without a machine directory is not active: a launch has the machine's lock file open. -/
theorem Live.not_active_of_none (h : Live s) (hd : s.dir = none) : ¬ s.Active := by
  rintro (⟨st, hst, -⟩ | ⟨q, hq⟩)
  · simp [Sys.recorded, hd] at hst
  · obtain ⟨j, hj, -⟩ := h.sound.held q .machine (h.launcher_locked hq).2
    have hsome := h.named .machine j (h.sound.current q .machine j hj)
    rw [hd] at hsome
    cases hsome

theorem has_remove {a b : Artefact} (hne : b ≠ a) (hb : s.has b = true) :
    Sys.has { s with dir := s.dir.map (MachineDir.remove · a) } b = true := by
  cases hd : s.dir with
  | none => simp [Sys.has, hd] at hb
  | some d =>
    have hin : b ∈ d.entries := by simpa [Sys.has, hd] using hb
    simpa [Sys.has, MachineDir.remove, hne] using hin

theorem has_setDir {d d' : MachineDir} (hd : s.dir = some d) (h : d'.entries = d.entries) (a : Artefact) :
    (s.setDir d').has a = s.has a := by
  simp [Sys.has, Sys.setDir, hd, h]

/-- **A step of prune keeps the work in progress** when it meets the condition. -/
theorem Live.exec_keepsWork (h : Live s) (hcode : (s.proc .prune).code = i :: rest)
    (hok : AsIfLocked s (.prune, .advance c)) : KeepsWork s (PruneRuns.exec s .prune c rest i) := by
  obtain ⟨hpre, -⟩ := disciplined_cons.mp (hcode ▸ h.disciplined .prune)
  cases i with
  | deletePlanned a =>
    refine ⟨fun q b hb hhas => ?_, fun _ hr => ?_⟩
    · have hne : b ≠ a := by
        rintro rfl
        cases hg : b.guard with
        | machine =>
          -- The file is deleted under no lock; its builder holds the machine lock, which is free.
          have hfree : b = diskPartial → s.locks.Free .machine := by simpa [AsIfLocked, hcode] using hok
          have hl := h.builder_locked hb
          rw [hg, hfree ((h.good q).disk b hb hg) q] at hl
          cases hl
        | snapshots =>
          have hl : s.locks.locked .prune .snapshots = true := hpre.2 hg
          exact h.not_building (hg ▸ hl) hb
      exact has_remove hne hhas
    · exact hr
  | clearInactive =>
    refine ⟨fun _ _ _ hhas => hhas, fun hact hr => ?_⟩
    have hc : (s.proc .prune).checked = false := by
      cases hc : (s.proc .prune).checked with
      | false => rfl
      | true => exact absurd hact (h.not_active_of_checked hc)
    show (s.runtime && !(s.proc .prune).checked) = true
    rw [hr, hc]
    rfl
  | clearUnpublished =>
    refine ⟨fun _ _ _ hhas => hhas, fun hact _ => absurd hact (h.not_active_of_none ?_)⟩
    simpa [AsIfLocked, hcode] using hok
  | renameDir =>
    refine .withDir fun d hd => ⟨fun q b hb _ => ?_, fun _ hr => hr⟩
    -- Whoever builds holds one of the two locks: prune has the machine lock, and the snapshot lock is free.
    exfalso
    have hl := h.builder_locked hb
    cases hg : b.guard with
    | machine => exact h.not_building (hg ▸ hpre.2.1) hb
    | snapshots =>
      have hfree : s.locks.Free .snapshots := by simpa [AsIfLocked, hcode] using hok
      rw [hg, hfree q] at hl
      cases hl
  | ensureExists =>
    refine .withDir fun d _ => ?_
    split <;> exact .same (fun _ => rfl) rfl
  | openLock l => cases l with
    | machine => exact .withDir fun _ _ => .same (fun _ => rfl) rfl
    | snapshots =>
      refine .withDir fun d _ => ?_
      split <;> exact .same (fun _ => rfl) rfl
  | lock l =>
    show KeepsWork s (takeLock s .prune rest l)
    unfold takeLock
    split <;> exact .same (fun _ => rfl) rfl
  | readLive r =>
    refine .withState fun d st _ => ?_
    split
    · exact .decide (fun _ => rfl) rfl
    · exact .same (fun _ => rfl) rfl
  | readLocked r => exact .withState fun d st hd => .decide (fun a => has_setDir hd rfl a) rfl
  | listMachine | removeMachine | clearRemoval | expectLock =>
    simp only [PruneRuns.exec]
    split <;> exact .same (fun _ => rfl) rfl
  | unlock _ | scanRuntime | scanDir | scanSnapshots | scanRemoval | executePlan | sweepRemoval =>
    exact .same (fun _ => rfl) rfl
  | build _ | prepareRuntime | adopt | beginCreation | writeState _ | writeRestored | writeStarting | writeStatus _
  | writeFinal _ | spawnShim => exact absurd hpre.1 nofun
  | _ => exact absurd hpre nofun

/-- A party with no work in progress changes nothing when it fails. -/
theorem fail_keepsWork (hb : (s.proc .prune).building = []) (hl : (s.proc .prune).launching = false) :
    KeepsWork s (fail s .prune) := by
  have hrun : (fail s .prune).runtime = s.runtime := by
    show (s.runtime && !(s.proc .prune).launching) = s.runtime
    rw [hl, Bool.not_false, Bool.and_true]
  refine .same (fun a => ?_) hrun
  unfold PruneRuns.fail
  cases hd : s.dir with
  | none => rfl
  | some d => simp [Sys.has, Sys.quit, Sys.setDir, hd, hb]

/-- The system before or after the rename. -/
def Inv (s : Sys) : Prop := Live s ∨ Retired s

theorem Inv.keepsWork (h : Inv s) {e : Event} (hok : AsIfLocked s (.prune, e)) (hs : step s (.prune, e) = some s') :
    KeepsWork s s' := by
  cases e with
  | start op =>
    simp only [step, Option.ite_none_right_eq_some, Option.some.injEq] at hs
    obtain ⟨⟨hidle, -⟩, rfl⟩ := hs
    exact .same (fun _ => rfl) rfl
  | advance c =>
    simp only [step] at hs
    split at hs
    · cases hs
    · rename_i i rest hcode
      cases hs
      rcases h with h | h
      · exact h.exec_keepsWork hcode hok
      · obtain ⟨-, hd, hr⟩ := h.exec (c := c) hcode
        exact .same (fun a => by simp only [Sys.has, hd]) hr
  | fail =>
    simp only [step, Option.ite_none_left_eq_some, Option.some.injEq] at hs
    obtain ⟨-, rfl⟩ := hs
    rcases h with h | h
    · obtain ⟨hb, hl⟩ := (h.good .prune).prune rfl
      exact fail_keepsWork hb hl
    · exact fail_keepsWork h.building h.settled
  | die =>
    simp only [step, Option.ite_none_left_eq_some, Option.some.injEq] at hs
    obtain ⟨-, rfl⟩ := hs
    exact .same (fun _ => rfl) rfl

theorem Live.step (h : Live s) {p : Party} {e : Event} (hok : AsIfLocked s (p, e)) (hs : step s (p, e) = some s') :
    Inv s' := by
  cases e with
  | start op =>
    simp only [PruneRuns.step, Option.ite_none_right_eq_some, Option.some.injEq] at hs
    obtain ⟨⟨hidle, hmay⟩, rfl⟩ := hs
    refine .inl (h.begin hidle ?_)
    cases p with
    | prune => cases op with
      | prune b => exact Op.disciplined_prune b
      | _ => cases hmay
    | process n =>
      refine Op.disciplined fun b hb => ?_
      subst hb
      cases hmay
  | advance c =>
    simp only [PruneRuns.step] at hs
    split at hs
    · cases hs
    · rename_i i rest hcode
      cases hs
      by_cases hi : i = .renameDir
      · subst hi
        exact h.rename hcode
      · exact .inl (h.exec hcode hok hi)
  | fail =>
    simp only [PruneRuns.step, Option.ite_none_left_eq_some, Option.some.injEq] at hs
    obtain ⟨-, rfl⟩ := hs
    exact .inl h.fail
  | die =>
    simp only [PruneRuns.step, Option.ite_none_left_eq_some, Option.some.injEq] at hs
    obtain ⟨-, rfl⟩ := hs
    exact .inl (h.quit (fun _ _ => rfl) rfl rfl id (.inr rfl))

theorem Retired.step (h : Retired s) {p : Party} {e : Event} (hs : step s (p, e) = some s') : Retired s' := by
  cases e with
  | start op =>
    simp only [PruneRuns.step, Option.ite_none_right_eq_some, Option.some.injEq] at hs
    obtain ⟨⟨-, hmay⟩, rfl⟩ := hs
    cases p with
    | prune => cases op with
      | prune b =>
        -- Prune runs once.
        simp [mayStart, h.begun] at hmay
      | _ => cases hmay
    | process n => exact h.aside ⟨begin_proc_of_ne op nofun, Bool.or_false _⟩
  | advance c =>
    simp only [PruneRuns.step] at hs
    split at hs
    · cases hs
    · rename_i i rest hcode
      cases hs
      by_cases hp : p = .prune
      · subst hp
        exact (h.exec hcode).1
      · exact h.aside (exec_aside hp)
  | fail =>
    simp only [PruneRuns.step, Option.ite_none_left_eq_some, Option.some.injEq] at hs
    obtain ⟨-, rfl⟩ := hs
    by_cases hp : p = .prune
    · subst hp
      unfold PruneRuns.fail
      cases s.dir <;> exact h.quit rfl
    · exact h.aside (fail_aside hp)
  | die =>
    simp only [PruneRuns.step, Option.ite_none_left_eq_some, Option.some.injEq] at hs
    obtain ⟨-, rfl⟩ := hs
    by_cases hp : p = .prune
    · subst hp
      exact h.quit rfl
    · exact h.aside (.quit hp ⟨rfl, rfl⟩)

theorem Initial.live (h : Initial s) : Live s where
  sound := h.sound
  named := h.named
  good p := by
    have hf : s.frame p = .idle (p == .prune) := by simp [Sys.frame, h.idle, h.unlocked, Frame.idle, Proc.idle]
    exact hf ▸ .idle _
  disciplined p := by simp [Disciplined, Follows, Sys.frame, h.idle, h.unlocked, Frame.idle, Proc.idle]
  checked p hc := by simp [h.idle, Proc.idle] at hc
  begun hc := by simp [h.idle, Proc.idle] at hc

/-- **Prune never deletes work in progress** in a run whose steps all meet the condition: every step of prune leaves the
work files that another operation has made and not yet published, and the runtime directory of a machine that is
starting or running. -/
theorem prune_keepsWork {s s' : Sys} {e : Event} (hs : Reachable step AsIfLocked Initial s)
    (hok : AsIfLocked s (.prune, e)) (hstep : step s (.prune, e) = some s') : KeepsWork s s' := by
  have hinv : Inv s := hs.invariant (fun _ h => .inl h.live) fun _ a _ h hok hs =>
    h.elim (fun h => h.step (p := a.1) (e := a.2) hok hs) fun h => .inr (h.step (p := a.1) (e := a.2) hs)
  exact hinv.keepsWork hok hstep

end safety

/-! ## Runs that lose work -/

/-- The VMM does not answer, and the process id 7 is free. -/
def silent : Choice := ⟨false, 7, "2026-01-01T00:00:00Z", ⟨"2026-01-01T00:00:00Z", some 0, none, .stale⟩⟩

def stoppedState : MachineState where
  status := .stopped
  image := ⟨"debian", some "img", some "sha"⟩
  mac := none
  cid := 3
  instanceId := none
  shimPid := none
  vmmPid := none
  sidecarPids := []
  runtimeDir := "/run/firestone/m"
  startedAt := none
  forwards := []
  degraded := []
  lastExit := none

/-- A machine no process works on. -/
def idleMachine (d : MachineDir) : Sys where
  dir := some d
  removal := false
  runtime := false
  locks := ⟨fun | .machine => some 0 | .snapshots => some 1, fun _ _ => none, fun _ _ => false, fun _ => none, 2⟩
  proc := fun _ => .idle
  pruned := false
  status := none
  plan := .empty

/-- No machine, and a runtime directory of its name. -/
def leftover : Sys where
  dir := none
  removal := false
  runtime := true
  locks := ⟨fun _ => none, fun _ _ => none, fun _ _ => false, fun _ => none, 0⟩
  proc := fun _ => .idle
  pruned := false
  status := none
  plan := .empty

theorem idleMachine_initial (d : MachineDir) : Initial (idleMachine d) where
  idle _ := rfl
  closed _ _ := rfl
  unlocked _ _ := rfl
  sound := by
    refine ⟨nofun, nofun, fun l l' i h h' => ?_, fun l i h => ?_⟩
    · cases l <;> cases l' <;> cases h <;> cases h' <;> rfl
    · cases l <;> cases h
      · exact Nat.zero_lt_two
      · exact Nat.one_lt_two
  named _ _ _ := rfl
  before := rfl
  unread := rfl
  unplanned := rfl

theorem leftover_initial : Initial leftover where
  idle _ := rfl
  closed _ _ := rfl
  unlocked _ _ := rfl
  sound := ⟨nofun, nofun, nofun, nofun⟩
  named := nofun
  before := rfl
  unread := rfl
  unplanned := rfl

/-- A party begins an operation and takes its first `n` steps. -/
def begins (p : Party) (op : Op) (n : Nat) : List (Party × Event) :=
  (p, .start op) :: List.replicate n (p, .advance silent)

/-- The next step is none that the condition is about. -/
def quiet (s : Sys) : Party × Event → Bool
  | (p, .advance _) =>
    match (s.proc p).code.head? with
    | some (.deletePlanned a) => a != diskPartial
    | some .clearUnpublished | some .renameDir | some .beginCreation => false
    | _ => true
  | _ => true

theorem asIfLocked_of_quiet (s : Sys) (a : Party × Event) (h : quiet s a = true) : AsIfLocked s a := by
  obtain ⟨p, e⟩ := a
  cases e with
  | advance c =>
    simp only [quiet] at h
    simp only [AsIfLocked]
    split at h <;> simp_all
  | _ => trivial

/-- A created machine whose last snapshot was not finished. -/
def createdMachine : Sys :=
  idleMachine ⟨false, true, some { stoppedState with status := .created }, false, true, [.snapshot (.working "old")]⟩

/-- Prune has made its plan, the first start has made `disk.qcow2.partial`, and prune deletes the old snapshot. -/
def firstStartRun : List (Party × Event) :=
  begins .prune (.prune false) 7 ++ begins (.process 0) (.start true) 9 ++ List.replicate 2 (.prune, .advance silent)

theorem prune_keepsWork_firstStart : ∃ s s', Reachable step AsIfLocked Initial s ∧
    step s (.prune, .advance silent) = some s' ∧ (s.proc (.process 0)).building = [diskPartial] ∧
    s.has (.snapshot (.working "old")) = true ∧ s'.has (.snapshot (.working "old")) = false ∧ KeepsWork s s' := by
  have hrun : (run step createdMachine firstStartRun).any (fun s =>
      (s.proc (.process 0)).building == [diskPartial] && s.has (.snapshot (.working "old")) &&
        quiet s (.prune, .advance silent) &&
        (step s (.prune, .advance silent)).any fun s' => !s'.has (.snapshot (.working "old"))) = true := by
    decide
  have hmeet : StepsMeet step AsIfLocked createdMachine firstStartRun :=
    StepsMeet.of_checks asIfLocked_of_quiet (by decide : runChecks step quiet createdMachine firstStartRun = true)
  obtain ⟨s, hs, hcheck⟩ := Option.any_eq_true _ _ |>.mp hrun
  simp only [Bool.and_eq_true, beq_iff_eq] at hcheck
  obtain ⟨⟨⟨hbuild, hhas⟩, hquiet⟩, hnext⟩ := hcheck
  obtain ⟨s', hs', hgone⟩ := Option.any_eq_true _ _ |>.mp hnext
  have hr := (Reachable.start (idleMachine_initial _)).run hmeet hs
  exact ⟨s, s', hr, hs', hbuild, hhas, by simpa using hgone, prune_keepsWork hr (asIfLocked_of_quiet _ _ hquiet) hs'⟩

def stoppedMachine : Sys := idleMachine ⟨false, true, some stoppedState, true, true, []⟩

/-- A restore has made `disk.qcow2.partial`; prune lists it and is about to delete it. -/
def restoreRun : List (Party × Event) :=
  begins (.process 0) (.restore true false false) 11 ++ begins .prune (.prune false) 7

/-- Prune has planned the runtime directory of a name without a machine; the machine is created and started. -/
def createRun : List (Party × Event) :=
  begins .prune (.prune false) 6 ++ begins (.process 0) (.create stoppedState) 8 ++
    begins (.process 1) (.start true) 14 ++ List.replicate 5 (.process 7, .advance silent)

theorem unlocked_deletions_lose_work :
    (¬ ∀ s e s', Reachable step anyStep Initial s → step s (.prune, e) = some s' →
      ∀ q a, a ∈ (s.proc q).building → s.has a = true → s'.has a = true) ∧
    ¬ ∀ s e s', Reachable step anyStep Initial s → step s (.prune, e) = some s' →
      s.Active → s.runtime = true → s'.runtime = true := by
  constructor
  · intro h
    have hrun : (run step stoppedMachine restoreRun).any (fun s =>
        (s.proc (.process 0)).building == [diskPartial] && s.has diskPartial &&
          (step s (.prune, .advance silent)).any fun s' => !s'.has diskPartial) = true := by
      decide
    obtain ⟨s, hs, hcheck⟩ := Option.any_eq_true _ _ |>.mp hrun
    simp only [Bool.and_eq_true, beq_iff_eq] at hcheck
    obtain ⟨⟨hbuild, hhas⟩, hnext⟩ := hcheck
    obtain ⟨s', hs', hgone⟩ := Option.any_eq_true _ _ |>.mp hnext
    have hr := reachable_of_run (idleMachine_initial _) hs
    have hkept := h s _ s' hr hs' (.process 0) diskPartial (by simp [hbuild]) hhas
    simp [hkept] at hgone
  · intro h
    have hrun : (run step leftover createRun).any (fun s =>
        s.recorded.any (fun st => st.status == .running) && s.runtime &&
          (step s (.prune, .advance silent)).any fun s' => !s'.runtime) = true := by
      decide
    obtain ⟨s, hs, hcheck⟩ := Option.any_eq_true _ _ |>.mp hrun
    simp only [Bool.and_eq_true] at hcheck
    obtain ⟨⟨hrunning, hruntime⟩, hnext⟩ := hcheck
    obtain ⟨st, hst, hstatus⟩ := Option.any_eq_true _ _ |>.mp hrunning
    obtain ⟨s', hs', hgone⟩ := Option.any_eq_true _ _ |>.mp hnext
    have hactive : s.Active := .inl ⟨st, hst, by rw [beq_iff_eq.mp hstatus]; rfl⟩
    have hkept := h s _ s' (reachable_of_run leftover_initial hs) hs' hactive hruntime
    simp [hkept] at hgone

/-- Prune has planned to remove a stopped machine; it is started, a warm snapshot of it is in progress, and it stops. -/
def removeRun : List (Party × Event) :=
  begins .prune (.prune true) 7 ++ begins (.process 0) (.start false) 11 ++
    List.replicate 5 (.process 7, .advance silent) ++ [(.process 1, .start (.snapshotCreate .warm "s"))] ++
    List.replicate 7 (.process 1, .advance { silent with ping := true }) ++ List.replicate 4 (.process 7, .advance silent) ++
    List.replicate 8 (.prune, .advance silent)

/-- The rename removes a snapshot in progress, which holds no lock that `remove_one` takes. -/
example : (run step stoppedMachine removeRun).any (fun s =>
    (s.proc .prune).code.head? == some .renameDir &&
    (s.proc (.process 1)).building == [.snapshot (.working "s")] && s.has (.snapshot (.working "s")) &&
      (step s (.prune, .advance silent)).any fun s' => !s'.has (.snapshot (.working "s"))) = true := by
  decide

end Firestone.Machine.PruneRuns
