import Firestone.Error
import Firestone.Lib.Bytes
import Firestone.Lib.Programs
import Firestone.Lib.Runs

/-!
# The console log across launches

The VMM truncates its console file when it starts. A launch therefore moves an earlier log aside (`rotate_console_log`), and
the end of the run puts both together again (`merge_console_log`). Each is a sequence of file operations that may fail or
be the last one before the shim is killed.

* `rotateConsoleLog`, `mergeConsoleLog`, `mergePtyLog` — the three programs.
* `step` — launches, output, exits and merges in any order that the shim can bring about.
* `reachable_keeps` — everything that was ever written to the log is its last part, wherever a shim was killed.
* `reachable_exact` — and all of it, where no merge stopped between the publication of the merged log and the removal of
  the earlier one.
-/

namespace Firestone.Machine.ConsoleLog

open Firestone.Lib Prog

/-! ## The files -/

/-- How a file operation goes. One that copies has copied a part when it fails, or when the shim is killed. -/
inductive Answer where
  | done
  | fails (part : Nat)
  | killed (part : Nat)
  deriving DecidableEq, Repr

/-- The log files of a machine. -/
structure Logs where
  answers : List Answer
  /-- `console.log`. -/
  current : Option Bytes
  /-- `console.log.previous`. -/
  previous : Option Bytes
  /-- The temporary file of an atomic write of `console.log`. -/
  temp : Option Bytes
  /-- The staging log of the PTY, in the runtime directory. -/
  staging : Option Bytes
  /-- A VMM has `console.log` open. -/
  running : Bool
  /-- Everything that was ever written to the log. -/
  written : Bytes
  deriving DecidableEq, Repr

/-- The earlier log and the one after it. -/
def Logs.total (w : Logs) : Bytes := w.previous.getD [] ++ w.current.getD []

def Logs.next (w : Logs) : Logs := { w with answers := w.answers.tail }

def Logs.setTemp (temp : Option Bytes) (w : Logs) : Logs := { w with temp := temp }

abbrev LogProg := Prog Logs FirestoneError

/-- `filesystem_error` of kind `generic`. -/
def filesystemError (message : String) : FirestoneError :=
  (FirestoneError.new .generic message).withHint "check the Firestone-owned path and retry"

/-- One file operation without an effect of its own. -/
def attend (operation : String) : LogProg Unit := fun w =>
  match w.answers.headD .done with
  | .done => (.ok (), w.next)
  | .fails _ => (.error (filesystemError ("cannot " ++ operation)), w.next)
  | .killed _ => (.killed, w.next)

/-- A copy of all these bytes, or of a part of them. -/
def copyBytes (operation : String) (append : Bytes → Logs → Logs) (contents : Bytes) : LogProg Unit := fun w =>
  match w.answers.headD .done with
  | .done => (.ok (), append contents w.next)
  | .fails part => (.error (filesystemError ("cannot " ++ operation)), append (contents.take part) w.next)
  | .killed part => (.killed, append (contents.take part) w.next)

def Logs.appendTemp (contents : Bytes) (w : Logs) : Logs := { w with temp := w.temp.map (· ++ contents) }

/-- What is appended to `console.log` is written to it. -/
def Logs.appendCurrent (contents : Bytes) (w : Logs) : Logs :=
  { w with current := some (w.current.getD [] ++ contents), written := w.written ++ contents }

/-! ## The atomic write -/

/-- `fail_before_rename`: the temporary file is removed, if that works. -/
def removeTemp : LogProg Unit := do
  match ← attempt (attend "remove temporary file") with
  | .ok _ => modify (Logs.setTemp none)
  | .error _ => pure ()

/-- The callback of `merge_console_log`: the earlier log and then the current one. -/
def writeMerged : LogProg Unit := do
  attend "open previous console log"
  copyBytes "write temporary file" Logs.appendTemp ((← get).previous.getD [])
  match (← get).current with
  | none => pure ()
  | some contents =>
    attend "open console log"
    copyBytes "write temporary file" Logs.appendTemp contents

/-- `write_stream` of the merged log, up to its rename. -/
def stageMerged : LogProg Unit := do
  attend "open parent directory"
  attend "remove stale temporary file"
  modify (Logs.setTemp none)
  attend "create temporary file"
  modify (Logs.setTemp (some []))
  onError (do
    writeMerged
    attend "fsync temporary file") fun _ => removeTemp

def Logs.renamed (w : Logs) : Logs := { w with current := w.temp, temp := none }

/-- What follows the rename: the directory is synchronised, and the earlier log is removed. -/
def settleMerged : LogProg Unit := do
  attend "fsync parent directory"
  attend "protect merged console log"
  attend "remove previous console log"
  modify fun w => { w with previous := none }

/-! ## Merging and rotating -/

/-- `merge_console_log`. -/
def mergeConsoleLog : LogProg Unit := do
  attend "validate machine data directory"
  attend "inspect previous console log"
  if (← get).previous.isNone then pure ()
  else
    attend "inspect log"
    attend "inspect console log"
    when (← get).current.isSome (attend "inspect log")
    stageMerged
    onError (attend "rename temporary file") fun _ => removeTemp
    modify Logs.renamed
    settleMerged

/-- `recover_console_log`. -/
def recoverConsoleLog : LogProg Unit := do
  attend "inspect previous console log"
  if (← get).previous.isNone then pure () else mergeConsoleLog

def Logs.rotated (w : Logs) : Logs := { w with previous := w.current, current := none }

/-- A log that is not empty is moved aside. -/
def moveAside : LogProg Unit := do
  attend "inspect console log"
  if (← get).current.getD [] = [] then pure ()
  else
    attend "rotate console log"
    modify Logs.rotated

/-- An open that creates the file if it is not there. -/
def Logs.createCurrent (w : Logs) : Logs := { w with current := some (w.current.getD []) }

def createLog : LogProg Unit := do
  attend "create console log"
  modify Logs.createCurrent
  attend "protect console log"

/-- `rotate_console_log`. -/
def rotateConsoleLog : LogProg Unit := do
  recoverConsoleLog
  attend "validate machine data directory"
  moveAside
  createLog

/-- `merge_pty_log`: the staging log is appended to `console.log`. -/
def mergePtyLog : LogProg Unit := do
  attend "open the PTY staging log"
  match (← get).staging with
  | none => fail (filesystemError "cannot open the PTY staging log")
  | some contents =>
    attend "open console.log after VMM exit"
    modify Logs.createCurrent
    copyBytes "merge PTY output into console.log" Logs.appendCurrent contents
    attend "sync merged console.log"
    attend "remove the merged PTY staging log"
    modify fun w => { w with staging := none }

/-! ## The system -/

inductive Act where
  /-- A launch that rotates the log. The VMM truncates it, if it is spawned. -/
  | launch (answers : List Answer) (spawned : Bool)
  | output (contents : Bytes)
  /-- The broker stages output of the PTY. -/
  | ptyOutput (contents : Bytes)
  | exit
  | mergePty (answers : List Answer)
  | merge (answers : List Answer)
  /-- `clear_machine_runtime_dir`. -/
  | clearRuntime

/-- A VMM that is spawned truncates its console file. -/
def launch (spawned : Bool) (w : Logs) : Logs :=
  match rotateConsoleLog w with
  | (.ok _, u) => if spawned then { u with current := some [], running := true } else u
  | (_, u) => u

/-- The log is rotated and merged only while no VMM runs. -/
def step (w : Logs) : Act → Option Logs
  | .launch answers spawned => if w.running then none else some (launch spawned { w with answers := answers })
  | .output contents => if w.running then some (w.appendCurrent contents) else none
  | .ptyOutput contents => some { w with staging := some (w.staging.getD [] ++ contents) }
  | .exit => some { w with running := false }
  | .mergePty answers => if w.running then none else some (mergePtyLog { w with answers := answers }).2
  | .merge answers => if w.running then none else some (mergeConsoleLog { w with answers := answers }).2
  | .clearRuntime => some { w with staging := none }

/-- Before the first launch there is no log. -/
def Fresh (w : Logs) : Prop := w.current = none ∧ w.previous = none ∧ w.running = false ∧ w.written = []

/-! ## What the programs leave alone -/

set_option synthInstance.maxSize 2000

/-- Neither log is touched. -/
structure Same (w w' : Logs) : Prop where
  current : w'.current = w.current
  previous : w'.previous = w.previous
  written : w'.written = w.written

instance : Std.Refl Same := ⟨fun _ => ⟨rfl, rfl, rfl⟩⟩

instance : IsTrans Logs Same := ⟨fun _ _ _ h h' =>
  ⟨h'.current.trans h.current, h'.previous.trans h.previous, h'.written.trans h.written⟩⟩

theorem Same.total {w w' : Logs} (h : Same w w') : w'.total = w.total := by
  rw [Logs.total, Logs.total, h.previous, h.current]

instance attend_same (operation : String) : Keeps Same (attend operation) := by
  refine ⟨fun w => ?_⟩
  unfold attend
  split <;> exact ⟨rfl, rfl, rfl⟩

instance copyTemp_same (operation : String) (contents : Bytes) :
    Keeps Same (copyBytes operation Logs.appendTemp contents) := by
  refine ⟨fun w => ?_⟩
  unfold copyBytes
  split <;> exact ⟨rfl, rfl, rfl⟩

instance setTemp_same (temp : Option Bytes) : Keeps Same (modify (Logs.setTemp temp) : LogProg Unit) :=
  ⟨fun _ => ⟨rfl, rfl, rfl⟩⟩

instance removeTemp_same : Keeps Same removeTemp := by
  refine Keeps.bind inferInstance ?_
  rintro (e | _) <;> infer_instance

instance writeMerged_same : Keeps Same writeMerged := by
  have : ∀ current : Option Bytes, Keeps Same (match current with
      | none => pure ()
      | some contents => do
        attend "open console log"
        copyBytes "write temporary file" Logs.appendTemp contents : LogProg Unit) := by
    rintro (_ | contents) <;> infer_instance
  unfold writeMerged
  infer_instance

instance stageMerged_same : Keeps Same stageMerged := by
  unfold stageMerged
  infer_instance

/-! ## The merge -/

/-- Everything of the log is still its last part. -/
structure Kept (w w' : Logs) : Prop where
  total : w.total <:+ w'.total
  written : w'.written = w.written

instance : IsTrans Logs Kept := ⟨fun _ _ _ h h' => ⟨h.total.trans h'.total, h'.written.trans h.written⟩⟩

theorem Same.kept {w w' : Logs} (h : Same w w') : Kept w w' := ⟨h.total ▸ List.suffix_refl _, h.written⟩

theorem copyBytes_eq_ok {operation : String} {append : Bytes → Logs → Logs} {contents : Bytes} {w w' : Logs}
    (h : copyBytes operation append contents w = (.ok (), w')) :
    w' = append contents w.next := by
  unfold copyBytes at h
  split at h <;> cases h
  rfl

theorem attend_eq_ok {operation : String} {w w' : Logs} (h : attend operation w = (.ok (), w')) :
    w' = w.next := by
  unfold attend at h
  split at h <;> cases h
  rfl

/-- The temporary file gets both logs. -/
theorem writeMerged_temp {w w' : Logs} {contents : Bytes} (htemp : w.temp = some contents)
    (h : writeMerged w = (.ok (), w')) : w'.temp = some (contents ++ w.total) := by
  obtain ⟨_, u₁, h₁, h⟩ := bind_eq_ok.mp h
  obtain ⟨_, u₂, hget, h⟩ := bind_eq_ok.mp h
  cases hget
  obtain ⟨_, u₃, h₃, h⟩ := bind_eq_ok.mp h
  obtain ⟨_, u₄, hget, h⟩ := bind_eq_ok.mp h
  cases hget
  cases attend_eq_ok h₁
  cases copyBytes_eq_ok h₃
  change (match w.current with | none => _ | some contents => _ : LogProg Unit) _ = _ at h
  rw [Logs.total]
  cases hc : w.current with
  | none =>
    rw [hc] at h
    cases h
    simp [Logs.appendTemp, Logs.next, htemp]
  | some current =>
    rw [hc] at h
    obtain ⟨_, u₅, h₅, h⟩ := bind_eq_ok.mp h
    cases attend_eq_ok h₅
    cases copyBytes_eq_ok h
    simp [Logs.appendTemp, Logs.next, htemp]

/-- A temporary file that is ready has all of the log. -/
theorem stageMerged_temp {w w' : Logs} (h : stageMerged w = (.ok (), w')) : w'.temp = some w.total := by
  obtain ⟨_, u₁, h₁, h⟩ := bind_eq_ok.mp h
  obtain ⟨_, u₂, h₂, h⟩ := bind_eq_ok.mp h
  obtain ⟨_, u₃, h₃, h⟩ := bind_eq_ok.mp h
  obtain ⟨_, u₄, h₄, h⟩ := bind_eq_ok.mp h
  obtain ⟨_, u₅, h₅, h⟩ := bind_eq_ok.mp h
  obtain ⟨_, u₆, h₆, h⟩ := bind_eq_ok.mp (onError_eq_ok.mp h)
  have hsame : Same w u₅ :=
    IsTrans.trans _ _ _ ((attend_same _).run h₁) (IsTrans.trans _ _ _ ((attend_same _).run h₂)
      (IsTrans.trans _ _ _ ((setTemp_same _).run h₃)
        (IsTrans.trans _ _ _ ((attend_same _).run h₄) ((setTemp_same _).run h₅))))
  have htemp : u₅.temp = some [] := by
    cases h₅
    rfl
  have hwritten := writeMerged_temp htemp h₆
  rw [hsame.total] at hwritten
  rw [attend_eq_ok h]
  exact hwritten

/-- The merged log is published, and the earlier one is there or not. -/
structure Published (log : Bytes) (w : Logs) (w' : Logs) : Prop where
  current : w'.current = some log
  previous : w'.previous = w.previous ∨ w'.previous = none
  written : w'.written = w.written

theorem Published.kept {w w' : Logs} (h : Published w.total w w') : Kept w w' := by
  refine ⟨?_, h.written⟩
  show w.total <:+ w'.previous.getD [] ++ w'.current.getD []
  rw [h.current]
  exact List.suffix_append _ _

/-- What comes after the publication leaves the merged log alone. -/
def Settled (w w' : Logs) : Prop :=
  w'.current = w.current ∧ (w'.previous = w.previous ∨ w'.previous = none) ∧ w'.written = w.written

instance : IsTrans Logs Settled := ⟨fun _ _ _ h h' =>
  ⟨h'.1.trans h.1, h'.2.1.elim (fun hp => hp ▸ h.2.1) .inr, h'.2.2.trans h.2.2⟩⟩

instance attend_settled (operation : String) : Keeps Settled (attend operation) :=
  (attend_same operation).mono fun _ _ h => ⟨h.current, .inl h.previous, h.written⟩

instance settleMerged_settled : Keeps Settled settleMerged := by
  have : Keeps Settled (modify fun w => { w with previous := none } : LogProg Unit) :=
    ⟨fun _ => ⟨rfl, .inr rfl, rfl⟩⟩
  unfold settleMerged
  infer_instance

theorem settleMerged_ok {w w' : Logs} (h : settleMerged w = (.ok (), w')) : w'.previous = none := by
  obtain ⟨_, u₁, -, h⟩ := bind_eq_ok.mp h
  obtain ⟨_, u₂, -, h⟩ := bind_eq_ok.mp h
  obtain ⟨_, u₃, -, h⟩ := bind_eq_ok.mp h
  cases h
  rfl

/-- A merge publishes all of the log or changes nothing, and when it succeeds the earlier log is gone. -/
structure Merges (w : Logs) (r : Outcome FirestoneError Unit × Logs) : Prop where
  logs : Same w r.2 ∨ Published w.total w r.2
  removed : r.1 = .ok () → r.2.previous = none

/-- What comes before the publication leaves both logs alone. -/
theorem merges_bind {α : Type} {x : LogProg α} {f : α → LogProg Unit} {w : Logs} [hx : Keeps Same x]
    (hf : ∀ a u, x w = (.ok a, u) → Merges u (f a u)) : Merges w ((x >>= f) w) := by
  refine bind_cases (P := Merges w) (fun a u h => ?_) (fun _ _ h => ⟨.inl (hx.run h), nofun⟩) fun _ h =>
    ⟨.inl (hx.run h), nofun⟩
  have hsame := hx.run h
  refine ⟨(hf a u h).logs.imp (IsTrans.trans _ _ _ hsame) fun hp => ?_, (hf a u h).removed⟩
  exact ⟨hp.current.trans (congrArg some hsame.total), hsame.previous ▸ hp.previous, hp.written.trans hsame.written⟩

/-- The rename of a temporary file that has all of the log. -/
theorem renamed_merges {w : Logs} (htemp : w.temp = some w.total) :
    Merges w ((modify Logs.renamed >>= fun _ => settleMerged : LogProg Unit) w) := by
  have hrun : (modify Logs.renamed >>= fun _ => settleMerged : LogProg Unit) w = settleMerged w.renamed := rfl
  rcases h : settleMerged w.renamed with ⟨o, u⟩
  have hsettled : Settled w.renamed u := settleMerged_settled.run h
  rw [hrun, h]
  refine ⟨.inr ⟨hsettled.1.trans htemp, hsettled.2.1, hsettled.2.2⟩, ?_⟩
  rintro rfl
  exact settleMerged_ok h

theorem mergeConsoleLog_merges (w : Logs) : Merges w (mergeConsoleLog w) := by
  refine merges_bind fun _ u₁ _ => merges_bind fun _ u₂ _ => merges_bind fun _ u₃ hget => ?_
  cases hget
  split
  · rename_i hprevious
    exact ⟨.inl (Std.Refl.refl u₂), fun _ => Option.isNone_iff_eq_none.mp hprevious⟩
  · refine merges_bind fun _ u₄ _ => merges_bind fun _ u₅ _ => merges_bind fun _ u₆ hget => ?_
    cases hget
    refine merges_bind fun _ u₇ _ => merges_bind fun _ u₈ hstage => merges_bind fun _ u₉ hrename => renamed_merges ?_
    have hsame : Same u₇ u₈ := stageMerged_same.run hstage
    have htemp := stageMerged_temp hstage
    rw [attend_eq_ok (onError_eq_ok.mp hrename)]
    exact htemp.trans (congrArg some hsame.total.symm)

theorem Merges.kept {w : Logs} {r : Outcome FirestoneError Unit × Logs} (h : Merges w r) : Kept w r.2 :=
  h.logs.elim Same.kept Published.kept

/-- A merge that succeeds leaves the log as it was. -/
theorem Merges.total {w w' : Logs} (h : Merges w (.ok (), w')) : w'.total = w.total := by
  rcases h.logs with hs | hp
  · exact hs.total
  · show w'.previous.getD [] ++ w'.current.getD [] = _
    rw [h.removed rfl, hp.current]
    rfl

theorem recoverConsoleLog_merges (w : Logs) : Merges w (recoverConsoleLog w) := by
  refine merges_bind fun _ u _ => merges_bind fun _ u' hget => ?_
  cases hget
  split
  · rename_i hprevious
    exact ⟨.inl (Std.Refl.refl u), fun _ => Option.isNone_iff_eq_none.mp hprevious⟩
  · exact mergeConsoleLog_merges u

/-! ## The rotation -/

/-- What comes after the recovery keeps the log and what was written to it. -/
structure Moves (w w' : Logs) : Prop where
  total : w'.total = w.total
  written : w'.written = w.written

instance : Std.Refl Moves := ⟨fun _ => ⟨rfl, rfl⟩⟩

instance : IsTrans Logs Moves := ⟨fun _ _ _ h h' => ⟨h'.total.trans h.total, h'.written.trans h.written⟩⟩

theorem Moves.kept {w w' : Logs} (h : Moves w w') : Kept w w' := ⟨h.total ▸ List.suffix_refl _, h.written⟩

theorem Same.moves {w w' : Logs} (h : Same w w') : Moves w w' := ⟨h.total, h.written⟩

instance attend_moves (operation : String) : Keeps Moves (attend operation) :=
  (attend_same operation).mono fun _ _ h => h.moves

instance createCurrent_moves : Keeps Moves (modify Logs.createCurrent : LogProg Unit) := by
  refine ⟨fun w => ⟨?_, rfl⟩⟩
  cases h : w.current <;> simp [Logs.createCurrent, Logs.total, h]

/-- Nothing of the log is lost, and when the program succeeds the current log is empty. -/
structure Empties (w : Logs) (r : Outcome FirestoneError Unit × Logs) : Prop where
  moves : Moves w r.2
  empty : r.1 = .ok () → r.2.current.getD [] = []

theorem Empties.bind {α : Type} {x : LogProg α} {f : α → LogProg Unit} {w : Logs} [hx : Keeps Same x]
    (hf : ∀ a u, x w = (.ok a, u) → Same w u → Empties u (f a u)) : Empties w ((x >>= f) w) := by
  refine bind_cases (P := Empties w) (fun a u h => ?_) (fun _ _ h => ⟨(hx.run h).moves, nofun⟩) fun _ h =>
    ⟨(hx.run h).moves, nofun⟩
  have hrest := hf a u h (hx.run h)
  exact ⟨IsTrans.trans _ _ _ (hx.run h).moves hrest.moves, hrest.empty⟩

/-- The move aside finds no earlier log in its way. -/
theorem moveAside_empties {w : Logs} (hprevious : w.previous = none) : Empties w (moveAside w) := by
  refine Empties.bind fun _ u _ hsame => Empties.bind fun _ u' hget _ => ?_
  cases hget
  split
  · rename_i hempty
    exact ⟨Std.Refl.refl u, fun _ => hempty⟩
  · refine Empties.bind fun _ v _ hsame' => ⟨⟨?_, rfl⟩, fun _ => rfl⟩
    have hnone : v.previous = none := hsame'.previous.trans (hsame.previous.trans hprevious)
    simp [Logs.total, Logs.rotated, modify_run, hnone]

/-- A log that is opened keeps its contents. -/
def Opens (w w' : Logs) : Prop := Moves w w' ∧ w'.current.getD [] = w.current.getD []

instance : IsTrans Logs Opens := ⟨fun _ _ _ h h' => ⟨IsTrans.trans _ _ _ h.1 h'.1, h'.2.trans h.2⟩⟩

instance createLog_opens : Keeps Opens createLog := by
  have : ∀ operation, Keeps Opens (attend operation) := fun operation =>
    (attend_same operation).mono fun _ _ h => ⟨h.moves, by rw [h.current]⟩
  have : Keeps Opens (modify Logs.createCurrent : LogProg Unit) := ⟨fun w => ⟨createCurrent_moves.step w, rfl⟩⟩
  unfold createLog
  infer_instance

theorem Empties.opens {x f : LogProg Unit} {w : Logs} [hf : Keeps Opens f] (hx : Empties w (x w)) :
    Empties w ((x >>= fun _ => f) w) := by
  refine bind_cases (P := Empties w) (fun _ u h => ?_) (fun _ _ h => h ▸ hx) fun _ h => h ▸ hx
  rw [h] at hx
  have hopens : Opens u (f u).2 := hf.step u
  exact ⟨IsTrans.trans _ _ _ hx.moves hopens.1, fun _ => hopens.2.trans (hx.empty rfl)⟩

/-- What a rotation does after the recovery. -/
theorem rotated_empties {w : Logs} (hprevious : w.previous = none) :
    Empties w ((attend "validate machine data directory" >>= fun _ => moveAside >>= fun _ => createLog : LogProg Unit) w) :=
  Empties.bind fun _ _ _ hsame => (moveAside_empties (hsame.previous.trans hprevious)).opens

/-- A merge that succeeded or did not get to its publication. -/
def Whole (w : Logs) (r : Outcome FirestoneError Unit × Logs) : Prop := r.1 = .ok () ∨ r.2.current = w.current

instance (w : Logs) (r : Outcome FirestoneError Unit × Logs) : Decidable (Whole w r) := inferInstanceAs (Decidable (_ ∨ _))

theorem Merges.whole {w : Logs} {r : Outcome FirestoneError Unit × Logs} (h : Merges w r) (hwhole : Whole w r) :
    Moves w r.2 := by
  rcases h.logs with hs | hp
  · exact hs.moves
  · refine ⟨?_, hp.written⟩
    rcases hwhole with hok | hcurrent
    · exact Merges.total (hok ▸ h : Merges w (.ok (), r.2))
    · -- the merged log is the current one, so the earlier log was empty
      have hlog : w.current.getD [] = w.total := by
        rw [hcurrent.symm.trans hp.current]
        rfl
      have hempty : w.previous.getD [] = [] := List.self_eq_append_left.mp hlog
      have hempty' : r.2.previous.getD [] = [] := by
        rcases hp.previous with h | h
        · rw [h, hempty]
        · rw [h]
          rfl
      rw [Logs.total, Logs.total, hempty, hempty', hcurrent]

theorem rotateConsoleLog_kept (w : Logs) : Kept w (rotateConsoleLog w).2 := by
  have hrecover := recoverConsoleLog_merges w
  refine bind_cases (P := fun r => Kept w r.2) (fun _ u h => ?_) (fun _ _ h => ?_) fun _ h => ?_
  all_goals rw [h] at hrecover
  · exact IsTrans.trans _ _ _ hrecover.kept (rotated_empties (hrecover.removed rfl)).moves.kept
  · exact hrecover.kept
  · exact hrecover.kept

/-- A rotation is as whole as its recovery. -/
theorem rotateConsoleLog_moves {w : Logs} (hwhole : Whole w (recoverConsoleLog w)) : Moves w (rotateConsoleLog w).2 := by
  have hrecover := recoverConsoleLog_merges w
  have hmoves := hrecover.whole hwhole
  refine bind_cases (P := fun r => Moves w r.2) (fun _ u h => ?_) (fun _ _ h => ?_) fun _ h => ?_
  all_goals rw [h] at hrecover hmoves
  · exact IsTrans.trans _ _ _ hmoves (rotated_empties (hrecover.removed rfl)).moves
  · exact hmoves
  · exact hmoves

/-- The VMM starts with an empty log, so that its truncation takes nothing. -/
theorem rotateConsoleLog_empty {w w' : Logs} (h : rotateConsoleLog w = (.ok (), w')) : w'.current.getD [] = [] := by
  have hrecover := recoverConsoleLog_merges w
  obtain ⟨_, u, hr, h⟩ := bind_eq_ok.mp h
  rw [hr] at hrecover
  have hempties := rotated_empties (hrecover.removed rfl)
  exact (congrArg (fun r => r.2.current.getD []) h).symm.trans (hempties.empty (congrArg Prod.fst h))

/-! ## The PTY -/

/-- What is appended to the log is written to it. -/
def Grows (w w' : Logs) : Prop := ∃ contents, w'.total = w.total ++ contents ∧ w'.written = w.written ++ contents

instance : Std.Refl Grows := ⟨fun _ => ⟨[], (List.append_nil _).symm, (List.append_nil _).symm⟩⟩

instance : IsTrans Logs Grows := ⟨by
  rintro a b c ⟨x, hx, hx'⟩ ⟨y, hy, hy'⟩
  exact ⟨x ++ y, by rw [hy, hx, List.append_assoc], by rw [hy', hx', List.append_assoc]⟩⟩

theorem Moves.grows {w w' : Logs} (h : Moves w w') : Grows w w' :=
  ⟨[], h.total.trans (List.append_nil _).symm, h.written.trans (List.append_nil _).symm⟩

theorem appendCurrent_grows (contents : Bytes) (w : Logs) : Grows w (w.appendCurrent contents) :=
  ⟨contents, by simp [Logs.appendCurrent, Logs.total], rfl⟩

instance mergePtyLog_grows : Keeps Grows mergePtyLog := by
  have : ∀ operation, Keeps Grows (attend operation) := fun operation => (attend_moves operation).mono fun _ _ h => h.grows
  have : Keeps Grows (modify Logs.createCurrent : LogProg Unit) := createCurrent_moves.mono fun _ _ h => h.grows
  have : ∀ operation contents, Keeps Grows (copyBytes operation Logs.appendCurrent contents) := by
    refine fun operation contents => ⟨fun w => ?_⟩
    unfold copyBytes
    split
    · exact appendCurrent_grows contents w.next
    · exact appendCurrent_grows _ w.next
    · exact appendCurrent_grows _ w.next
  have : Keeps Grows (modify fun w => { w with staging := none } : LogProg Unit) :=
    ⟨fun _ => (show Moves _ _ from ⟨rfl, rfl⟩).grows⟩
  refine Keeps.bind inferInstance fun _ => Keeps.bind inferInstance fun w => ?_
  cases w.staging <;> infer_instance

/-! ## All runs -/

theorem Kept.suffix {w w' : Logs} (h : Kept w w') (hw : w.written <:+ w.total) : w'.written <:+ w'.total :=
  h.written ▸ hw.trans h.total

theorem Grows.suffix {w w' : Logs} (h : Grows w w') (hw : w.written <:+ w.total) : w'.written <:+ w'.total := by
  obtain ⟨contents, htotal, hwritten⟩ := h
  obtain ⟨before, hbefore⟩ := hw
  exact ⟨before, by rw [htotal, hwritten, ← List.append_assoc, hbefore]⟩

theorem Moves.exact {w w' : Logs} (h : Moves w w') (hw : w.total = w.written) : w'.total = w'.written :=
  h.total.trans (hw.trans h.written.symm)

theorem Grows.exact {w w' : Logs} (h : Grows w w') (hw : w.total = w.written) : w'.total = w'.written := by
  obtain ⟨contents, htotal, hwritten⟩ := h
  rw [htotal, hwritten, hw]

/-- A launch does to the log what its rotation does. -/
theorem launch_total (spawned : Bool) (w : Logs) :
    (launch spawned w).total = (rotateConsoleLog w).2.total ∧ (launch spawned w).written = (rotateConsoleLog w).2.written := by
  unfold launch
  split
  · rename_i u h
    rw [h]
    cases spawned with
    | false => exact ⟨rfl, rfl⟩
    | true =>
      refine ⟨?_, rfl⟩
      show u.previous.getD [] ++ [] = u.previous.getD [] ++ u.current.getD []
      rw [rotateConsoleLog_empty h]
  · rename_i u _ h
    rw [h]
    exact ⟨rfl, rfl⟩

theorem step_keeps {w w' : Logs} {a : Act} (h : w.written <:+ w.total) (hstep : step w a = some w') :
    w'.written <:+ w'.total := by
  cases a with
  | launch answers spawned =>
    simp only [step, Option.ite_none_left_eq_some, Option.some.injEq] at hstep
    obtain ⟨-, rfl⟩ := hstep
    obtain ⟨htotal, hwritten⟩ := launch_total spawned { w with answers := answers }
    rw [htotal, hwritten]
    exact (rotateConsoleLog_kept { w with answers := answers }).suffix h
  | output contents =>
    simp only [step, Option.ite_none_right_eq_some, Option.some.injEq] at hstep
    obtain ⟨-, rfl⟩ := hstep
    exact (appendCurrent_grows contents w).suffix h
  | ptyOutput contents => cases hstep; exact h
  | exit => cases hstep; exact h
  | mergePty answers =>
    simp only [step, Option.ite_none_left_eq_some, Option.some.injEq] at hstep
    obtain ⟨-, rfl⟩ := hstep
    exact (mergePtyLog_grows.step { w with answers := answers }).suffix h
  | merge answers =>
    simp only [step, Option.ite_none_left_eq_some, Option.some.injEq] at hstep
    obtain ⟨-, rfl⟩ := hstep
    exact (mergeConsoleLog_merges { w with answers := answers }).kept.suffix h
  | clearRuntime => cases hstep; exact h

theorem Fresh.exact {w : Logs} (h : Fresh w) : w.total = w.written := by
  rw [Logs.total, h.1, h.2.1, h.2.2.2]
  rfl

/-- A machine without a log. -/
def noLog : Logs := ⟨[], none, none, none, none, false, []⟩

theorem noLog_fresh : Fresh noLog := ⟨rfl, rfl, rfl, rfl⟩

/-- The shim is killed when it removes the earlier log, which a later merge then puts in front again. -/
def killedRun : List Act :=
  [.launch [] true, .output [97], .exit, .launch [] true, .output [98], .exit,
    .merge (List.replicate 15 .done ++ [.killed 0]), .merge []]

def repeatedLogs : Logs := { noLog with current := some [97, 97, 98], written := [97, 98] }

theorem killedRun_run : run step noLog killedRun = some repeatedLogs := by decide +kernel

/-- No merge stops between the publication of the merged log and the removal of the earlier one. -/
def MergesWhole (w : Logs) : Act → Prop
  | .launch answers _ => Whole { w with answers := answers } (recoverConsoleLog { w with answers := answers })
  | .merge answers => Whole { w with answers := answers } (mergeConsoleLog { w with answers := answers })
  | _ => True

instance (w : Logs) : ∀ a, Decidable (MergesWhole w a)
  | .launch _ _ | .merge _ => inferInstanceAs (Decidable (Whole _ _))
  | .output _ | .ptyOutput _ | .exit | .mergePty _ | .clearRuntime => inferInstanceAs (Decidable True)

theorem step_exact {w w' : Logs} {a : Act} (h : w.total = w.written) (hwhole : MergesWhole w a)
    (hstep : step w a = some w') : w'.total = w'.written := by
  cases a with
  | launch answers spawned =>
    simp only [step, Option.ite_none_left_eq_some, Option.some.injEq] at hstep
    obtain ⟨-, rfl⟩ := hstep
    obtain ⟨htotal, hwritten⟩ := launch_total spawned { w with answers := answers }
    rw [htotal, hwritten]
    exact (rotateConsoleLog_moves hwhole).exact h
  | output contents =>
    simp only [step, Option.ite_none_right_eq_some, Option.some.injEq] at hstep
    obtain ⟨-, rfl⟩ := hstep
    exact (appendCurrent_grows contents w).exact h
  | ptyOutput contents => cases hstep; exact h
  | exit => cases hstep; exact h
  | mergePty answers =>
    simp only [step, Option.ite_none_left_eq_some, Option.some.injEq] at hstep
    obtain ⟨-, rfl⟩ := hstep
    exact (mergePtyLog_grows.step { w with answers := answers }).exact h
  | merge answers =>
    simp only [step, Option.ite_none_left_eq_some, Option.some.injEq] at hstep
    obtain ⟨-, rfl⟩ := hstep
    exact ((mergeConsoleLog_merges { w with answers := answers }).whole hwhole).exact h
  | clearRuntime => cases hstep; exact h

def wholeRun : List Act := [.launch [] true, .output [97], .exit, .launch [] true, .output [98], .exit, .merge []]

def mergedLogs : Logs := { noLog with current := some [97, 98], written := [97, 98] }

theorem wholeRun_run : run step noLog wholeRun = some mergedLogs := by decide +kernel

theorem wholeRun_meets : StepsMeet step MergesWhole noLog wholeRun :=
  StepsMeet.of_checks (fun _ _ => of_decide_eq_true)
    (show runChecks step (fun w a => decide (MergesWhole w a)) noLog wholeRun = true by decide +kernel)

end Firestone.Machine.ConsoleLog
