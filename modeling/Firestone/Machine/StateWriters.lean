import Firestone.State
import Firestone.Lib.Runs

/-!
# The writers of a live machine's state

From the `starting` handoff on, the shim writes `state.json` from its own memory, the whole state each time, and ends
with `write_final_state`. A warm snapshot whose resume fails writes the same file: `mark_resume_degraded` reads it, adds
a marker and writes it back, without the machine lock.

* `step` — the writes of both, one at a time.
* `NoLostUpdate` — after the snapshot is done the file is the shim's last written state, marked unless it is final, and
  a final state stays.
* `Undisturbed` — the shim does not write while the snapshot holds its copy, the copy is not of a final state, and what
  the shim writes afterwards carries the marker or is final. Under it no update is lost
  (`reachable_noLostUpdate`).
-/

namespace Firestone.Machine.StateWriters

open Firestone.Lib

/-! ## The file and its writers -/

/-- Where `mark_resume_degraded` stands. -/
inductive Snapshot
  | running
  | holding (read : MachineState)
  | done
  deriving DecidableEq, Repr

structure Sys where
  file : MachineState
  /-- The state the shim has written last. -/
  last : MachineState
  /-- The shim has written its final state. -/
  finished : Bool
  snapshot : Snapshot
  deriving DecidableEq, Repr

def resumeMarker : String := "vmm paused after a failed snapshot resume"

/-- The state with the marker, once. -/
def addMarker (s : MachineState) : MachineState :=
  if s.degraded.contains resumeMarker then s else { s with degraded := s.degraded ++ [resumeMarker] }

/-- `StateStore::write_from_shim`: the contents of the file after it. An invalid state is refused. -/
def writeFromShim (state : MachineState) : Res MachineState := do
  state.validate
  .ok state

inductive Event
  /-- The shim writes its in-memory state while the machine is active. -/
  | shimWrite (state : MachineState)
  /-- The shim ends with `write_final_state` of its in-memory state. -/
  | shimFinal (memory : MachineState) (status : MachineStatus) (exit : LastExit)
  | markRead
  | markWrite
  deriving DecidableEq, Repr

/-- One write or read. A write that fails changes nothing. -/
def step (s : Sys) : Event → Option Sys
  | .shimWrite state =>
    if s.finished = false ∧ state.status.isActive = true then
      match writeFromShim state with
      | .ok file => some { s with file := file, last := state }
      | .error _ => some s
    else none
  | .shimFinal memory status exit =>
    if s.finished = false ∧ status.isActive = false then
      match writeFromShim (finalState memory status exit) with
      | .ok file => some { s with file := file, last := finalState memory status exit, finished := true }
      | .error _ => some s
    else none
  | .markRead => if s.snapshot = .running then some { s with snapshot := .holding s.file } else none
  | .markWrite =>
    match s.snapshot with
    | .holding read =>
      match writeFromShim (addMarker read) with
      | .ok file => some { s with file := file, snapshot := .done }
      | .error _ => some { s with snapshot := .done }
    | _ => none

/-- A live machine with a valid state that its shim has written, and a snapshot under way. -/
structure Initial (s : Sys) : Prop where
  active : s.file.status.isActive = true
  valid : s.file.validate = .ok ()
  written : s.last = s.file
  unfinished : s.finished = false
  underWay : s.snapshot = .running

/-! ## What must hold -/

/-- The file the two writers should leave. -/
def Sys.expected (s : Sys) : MachineState := if s.finished then s.last else addMarker s.last

structure NoLostUpdate (s : Sys) : Prop where
  /-- Once the snapshot is done, its marker and the shim's last write are both in the file. -/
  file : s.snapshot = .done → s.file = s.expected
  /-- A final state is not replaced by an active one. -/
  final : s.finished = true → s.file.status.isActive = false

/-- No shim write falls between the read and the write of the snapshot, the read finds no final state, and a later
write of the shim is final or carries the marker. -/
def Undisturbed (s : Sys) : Event → Prop
  | .shimWrite state => s.snapshot = .running ∨ s.snapshot = .done ∧ resumeMarker ∈ state.degraded
  | .shimFinal _ _ _ => ∀ read, s.snapshot ≠ .holding read
  | .markRead => s.finished = false
  | .markWrite => True

/-! ## The invariant -/

/-- Before the snapshot is done the file is the shim's last write, and so is the copy the snapshot holds. -/
structure Inv (s : Sys) : Prop where
  valid : s.file.validate = .ok ()
  before : s.snapshot ≠ .done → s.file = s.last
  holding : ∀ read, s.snapshot = .holding read → read = s.file ∧ s.finished = false
  after : s.snapshot = .done → s.file = s.expected
  final : s.finished = true → s.last.status.isActive = false

section invariant

variable {s s' : Sys}

theorem writeFromShim_ok {state file' : MachineState} (h : writeFromShim state = .ok file') :
    file' = state ∧ state.validate = .ok () := by
  obtain ⟨u, hv, h⟩ := Res.bind_ok h
  cases h
  exact ⟨rfl, hv⟩

theorem addMarker_of_mem {st : MachineState} (h : resumeMarker ∈ st.degraded) : addMarker st = st := by
  simp [addMarker, h]

/-- The marker is no part of what `validate` looks at. -/
theorem validate_addMarker (st : MachineState) : (addMarker st).validate = st.validate := by
  unfold addMarker
  split <;> rfl

theorem Initial.inv (h : Initial s) : Inv s where
  valid := h.valid
  before _ := h.written.symm
  holding read hr := by rw [h.underWay] at hr; cases hr
  after hd := by rw [h.underWay] at hd; cases hd
  final hf := by rw [h.unfinished] at hf; cases hf

theorem inv_shimWrite {state : MachineState} (hok : Undisturbed s (.shimWrite state))
    (hu : s.finished = false) (hv : state.validate = .ok ()) : Inv { s with file := state, last := state } where
  valid := hv
  before _ := rfl
  holding read hr := by
    rcases hok with hn | ⟨hn, -⟩ <;> rw [hn] at hr <;> cases hr
  after hd := by
    rcases hok with hn | ⟨-, hm⟩
    · rw [hn] at hd
      cases hd
    · simp only [Sys.expected, hu]
      exact (addMarker_of_mem hm).symm
  final hf := by rw [hu] at hf; cases hf

theorem inv_shimFinal {memory : MachineState} {status : MachineStatus} {exit : LastExit}
    (hok : Undisturbed s (.shimFinal memory status exit)) (hst : status.isActive = false)
    (hv : (finalState memory status exit).validate = .ok ()) :
    Inv { s with file := finalState memory status exit, last := finalState memory status exit, finished := true } where
  valid := hv
  before _ := rfl
  holding read hr := absurd hr (hok read)
  after _ := rfl
  final _ := hst

theorem Inv.markRead (h : Inv s) (hok : s.finished = false) (hr : s.snapshot = .running) :
    Inv { s with snapshot := .holding s.file } where
  valid := h.valid
  before _ := h.before (by rw [hr]; exact fun h => by cases h)
  holding read hr := by
    cases hr
    exact ⟨rfl, hok⟩
  after hd := by cases hd
  final := h.final

/-- The write-back replaces the shim's last write by its marked copy. -/
theorem Inv.markWrite (h : Inv s) {read : MachineState} (hr : s.snapshot = .holding read)
    (hv : (addMarker read).validate = .ok ()) : Inv { s with file := addMarker read, snapshot := .done } := by
  obtain ⟨hread, hu⟩ := h.holding read hr
  have hlast : read = s.last := hread.trans (h.before (by rw [hr]; exact fun h => by cases h))
  refine ⟨hv, fun hd => absurd rfl hd, (fun _ hd => by cases hd), fun _ => ?_, h.final⟩
  simp only [Sys.expected, hu, hlast]
  rfl

/-- **One step** that meets the condition keeps the invariant. -/
theorem Inv.step (h : Inv s) {e : Event} (hok : Undisturbed s e) (hs : step s e = some s') : Inv s' := by
  cases e with
  | shimWrite state =>
    simp only [StateWriters.step] at hs
    split at hs
    · rename_i hg
      split at hs
      · rename_i file hw
        obtain ⟨rfl, hv⟩ := writeFromShim_ok hw
        cases hs
        exact inv_shimWrite hok hg.1 hv
      · cases hs
        exact h
    · cases hs
  | shimFinal memory status exit =>
    simp only [StateWriters.step] at hs
    split at hs
    · rename_i hg
      split at hs
      · rename_i file hw
        obtain ⟨rfl, hv⟩ := writeFromShim_ok hw
        cases hs
        exact inv_shimFinal hok hg.2 hv
      · cases hs
        exact h
    · cases hs
  | markRead =>
    simp only [StateWriters.step] at hs
    split at hs
    · rename_i hr
      cases hs
      exact h.markRead hok hr
    · cases hs
  | markWrite =>
    simp only [StateWriters.step] at hs
    split at hs
    · rename_i read hr
      have hvalid : (addMarker read).validate = .ok () := by
        rw [validate_addMarker, (h.holding read hr).1]
        exact h.valid
      split at hs
      · rename_i file hw
        obtain ⟨rfl, hv⟩ := writeFromShim_ok hw
        cases hs
        exact h.markWrite hr hv
      · -- The copy was read back valid, so its write is not refused.
        rename_i e hw
        simp only [writeFromShim, hvalid] at hw
        cases hw
    · cases hs

theorem Inv.noLostUpdate (h : Inv s) : NoLostUpdate s where
  file := h.after
  final hf := by
    have hlast := h.final hf
    by_cases hd : s.snapshot = .done
    · rw [h.after hd, Sys.expected, if_pos hf]
      exact hlast
    · rw [h.before hd]
      exact hlast

end invariant

/-- **No lost update** in every run in which the shim and the snapshot do not disturb each other. -/
theorem reachable_noLostUpdate {s : Sys} (h : Reachable step Undisturbed Initial s) : NoLostUpdate s :=
  Inv.noLostUpdate (h.invariant (fun _ => Initial.inv) fun _ _ _ hinv hok hs => Inv.step hinv hok hs)

/-- A running machine whose warm snapshot could not resume it. -/
def runningMachine : MachineState :=
  ⟨.running, ⟨"ubuntu:24.04", none, none⟩, none, 3, none, some 10, some 11, [], "/run/m", none, [], [], none⟩

def resumeFailed : Sys := ⟨runningMachine, runningMachine, false, .running⟩

theorem resumeFailed_initial : Initial resumeFailed := ⟨rfl, rfl, rfl, rfl, rfl⟩

/-- The snapshot marks the machine and the shim then ends it. -/
theorem reachable_noLostUpdate_marked :
    ∃ s, Reachable step Undisturbed Initial s ∧ s.snapshot = .done ∧ s.finished = true ∧ NoLostUpdate s := by
  have hr : Reachable step Undisturbed Initial resumeFailed := .start resumeFailed_initial
  have hmeet : StepsMeet step Undisturbed resumeFailed
      [.markRead, .markWrite, .shimFinal runningMachine .stopped ⟨"2026-01-01", some 0, none, .guestShutdown⟩] :=
    .cons rfl rfl (.cons rfl trivial (.cons rfl (fun _ h => by cases h) trivial))
  have hend := hr.run hmeet rfl
  exact ⟨_, hend, rfl, rfl, reachable_noLostUpdate hend⟩

/-- The shim ends the machine between the read and the write-back: the file says `running` afterwards. -/
theorem final_state_overwritten : ¬ ∀ s, Reachable step anyStep Initial s → NoLostUpdate s := by
  intro h
  have hrun : (run step resumeFailed
      [.markRead, .shimFinal runningMachine .stopped ⟨"2026-01-01", some 0, none, .guestShutdown⟩, .markWrite]).any
        (fun s => s.finished && s.file.status.isActive) = true := by
    decide
  obtain ⟨s, hs, hcheck⟩ := (Option.any_eq_true _ _).mp hrun
  simp only [Bool.and_eq_true] at hcheck
  have hfinal := (h s (reachable_of_run resumeFailed_initial hs)).final hcheck.1
  rw [hcheck.2] at hfinal
  cases hfinal

end Firestone.Machine.StateWriters
