import Firestone.Lib.Bytes
import Firestone.Lib.Runs

/-!
# Atomic writes

`write_with_options` replaces a file through a sibling temporary file: it removes a stale one, creates its own, writes,
syncs and renames it. Every call for one destination uses the same temporary name.

* `Call.step` — one file-system step of one call, which may also fail.
* `step` — any number of calls, interleaved.
* `Inv` — what every interleaving keeps: who has created which file, and how far it is written.
* `Undisturbed` — a rename finds a file that its own call has finished writing. Under it the destination is the original
  or what one call writes, in every state (`reachable_atomicReplace`).
-/

namespace Firestone.Atomic

open Firestone.Lib

structure File where
  bytes : Bytes
  mode : UInt32
  deriving DecidableEq, Repr

/-- The arguments of one call, and the umask of the process that makes it. -/
structure Call where
  bytes : Bytes
  mode : Option UInt32
  umask : UInt32
  deriving DecidableEq, Repr

def Call.modeValid (call : Call) : Bool := call.mode.all fun mode => mode &&& ~~~0o7777 == 0

/-- The mode of the temporary file when it is created. -/
def Call.createMode (call : Call) : UInt32 := call.mode.getD 0o666 &&& ~~~call.umask

/-- The file the call publishes. -/
def Call.published (call : Call) : File := ⟨call.bytes, call.mode.getD call.createMode⟩

theorem Call.eq_published {call : Call} {file : File} (hbytes : file.bytes = call.bytes)
    (hmode : file.mode = call.published.mode) : file = call.published := by
  cases file
  cases hbytes
  cases hmode
  rfl

/-- The directory as far as the calls see it. An inode from `next` on is free. -/
structure Fs where
  files : Nat → File
  dest : Option Nat
  temp : Option Nat
  next : Nat

namespace Fs

/-- What a reader of the destination finds. -/
def read (fs : Fs) : Option File := fs.dest.map fs.files

def removeTemp (fs : Fs) : Fs := { fs with temp := none }

def create (fs : Fs) (mode : UInt32) : Fs :=
  { fs with files := Function.update fs.files fs.next ⟨[], mode⟩, temp := some fs.next, next := fs.next + 1 }

def setMode (fs : Fs) (file : Nat) (mode : UInt32) : Fs :=
  { fs with files := Function.update fs.files file { fs.files file with mode := mode } }

def append (fs : Fs) (file : Nat) (bytes : Bytes) : Fs :=
  { fs with files := Function.update fs.files file { fs.files file with bytes := (fs.files file).bytes ++ bytes } }

def rename (fs : Fs) (file : Nat) : Fs := { fs with dest := some file, temp := none }

end Fs

/-- Where a call stands. A call that has written everything is at `writing file []` and syncs next. -/
inductive Pc
  | opening
  | removing
  | creating
  | settingMode (file : Nat)
  | writing (file : Nat) (rest : Bytes)
  | publishing (file : Nat)
  | syncingParent
  /-- `fail_before_rename` removes whatever has the temporary name. -/
  | cleaning
  | returned (ok : Bool)
  deriving DecidableEq, Repr

/-- The file that the call has created and not yet renamed. -/
def Pc.file : Pc → Option Nat
  | .settingMode file | .writing file _ | .publishing file => some file
  | _ => none

/-- The file that the call is still to change. -/
def Pc.pending : Pc → Option Nat
  | .settingMode file => some file
  | .writing file (_ :: _) => some file
  | _ => none

/-- How a system call ends; a write takes some of the bytes. -/
inductive Outcome
  | done (taken : Nat)
  | fails
  deriving DecidableEq, Repr

/-- One step of `write_with_options`. -/
def Call.step (call : Call) (fs : Fs) : Pc → Outcome → Option (Fs × Pc)
  | .opening, .done _ => some (fs, if call.modeValid then .removing else .returned false)
  | .opening, .fails => some (fs, .returned false)
  | .removing, .done _ => some (fs.removeTemp, .creating)
  | .removing, .fails => some (fs, .returned false)
  | .creating, .done _ =>
    -- `create_new` refuses a name that exists
    match fs.temp with
    | some _ => some (fs, .returned false)
    | none => some (fs.create call.createMode,
        if call.mode.isSome then .settingMode fs.next else .writing fs.next call.bytes)
  | .creating, .fails => some (fs, .returned false)
  | .settingMode file, .done _ => some (fs.setMode file call.published.mode, .writing file call.bytes)
  | .settingMode _, .fails => some (fs, .cleaning)
  | .writing file [], .done _ => some (fs, .publishing file)
  | .writing file (b :: rest), .done taken =>
    if 0 < taken ∧ taken ≤ (b :: rest).length then
      some (fs.append file ((b :: rest).take taken), .writing file ((b :: rest).drop taken))
    else none
  | .writing _ _, .fails => some (fs, .cleaning)
  | .publishing _, .done _ =>
    match fs.temp with
    | some file => some (fs.rename file, .syncingParent)
    | none => some (fs, .cleaning)
  | .publishing _, .fails => some (fs, .cleaning)
  | .syncingParent, .done _ => some (fs, .returned true)
  | .syncingParent, .fails => some (fs, .returned false)
  | .cleaning, .done _ => some (fs.removeTemp, .returned false)
  | .cleaning, .fails => some (fs, .returned false)
  | .returned _, _ => none

/-- Everything one step may do. -/
inductive Effect (call : Call) (fs : Fs) : Pc → Fs → Pc → Prop
  | open : Effect call fs .opening fs .removing
  | refuse {pc : Pc} (h : pc = .opening ∨ pc = .removing ∨ pc = .creating ∨ pc = .syncingParent ∨ pc = .cleaning) :
      Effect call fs pc fs (.returned false)
  | unlink : Effect call fs .removing fs.removeTemp .creating
  | create {pc' : Pc} (htemp : fs.temp = none)
      (h : pc' = .settingMode fs.next ∨ call.mode = none ∧ pc' = .writing fs.next call.bytes) :
      Effect call fs .creating (fs.create call.createMode) pc'
  | mode (file : Nat) :
      Effect call fs (.settingMode file) (fs.setMode file call.published.mode) (.writing file call.bytes)
  | write (file : Nat) (bytes rest : Bytes) (h : bytes ≠ []) :
      Effect call fs (.writing file (bytes ++ rest)) (fs.append file bytes) (.writing file rest)
  | sync (file : Nat) : Effect call fs (.writing file []) fs (.publishing file)
  | abort {pc : Pc} (h : pc.file.isSome = true) : Effect call fs pc fs .cleaning
  | rename (own file : Nat) (h : fs.temp = some file) : Effect call fs (.publishing own) (fs.rename file) .syncingParent
  | finish : Effect call fs .syncingParent fs (.returned true)
  | clean : Effect call fs .cleaning fs.removeTemp (.returned false)

theorem Call.step_effect {call : Call} {fs fs' : Fs} {pc pc' : Pc} {outcome : Outcome}
    (h : call.step fs pc outcome = some (fs', pc')) : Effect call fs pc fs' pc' := by
  cases pc with
  | opening =>
    cases outcome <;> cases h
    · split
      · exact .open
      · exact .refuse (by simp)
    · exact .refuse (by simp)
  | removing =>
    cases outcome <;> cases h
    · exact .unlink
    · exact .refuse (by simp)
  | creating =>
    cases outcome with
    | fails =>
      cases h
      exact .refuse (by simp)
    | done taken =>
      unfold Call.step at h
      dsimp only at h
      split at h
      · cases h
        exact .refuse (by simp)
      · rename_i htemp
        cases h
        refine .create htemp ?_
        cases call.mode <;> simp
  | settingMode file =>
    cases outcome <;> cases h
    · exact .mode file
    · exact .abort rfl
  | writing file rest =>
    cases outcome with
    | fails =>
      cases rest <;> cases h
      · exact .abort rfl
      · exact .abort rfl
    | done taken =>
      cases rest with
      | nil =>
        cases h
        exact .sync file
      | cons b rest =>
        unfold Call.step at h
        dsimp only at h
        split at h
        · rename_i htaken
          cases h
          have happend : (b :: rest).take taken ++ (b :: rest).drop taken = b :: rest := List.take_append_drop _ _
          have hne : (b :: rest).take taken ≠ [] := by
            intro hnil
            have hlen := congrArg List.length hnil
            simp only [List.length_take, List.length_nil] at hlen
            omega
          have heffect : Effect call fs (.writing file ((b :: rest).take taken ++ (b :: rest).drop taken))
              (fs.append file ((b :: rest).take taken)) (.writing file ((b :: rest).drop taken)) := .write file _ _ hne
          rwa [happend] at heffect
        · cases h
  | publishing own =>
    cases outcome with
    | fails =>
      cases h
      exact .abort rfl
    | done taken =>
      unfold Call.step at h
      dsimp only at h
      split at h
      · rename_i file htemp
        cases h
        exact .rename own file htemp
      · cases h
        exact .abort rfl
  | syncingParent =>
    cases outcome <;> cases h
    · exact .finish
    · exact .refuse (by simp)
  | cleaning =>
    cases outcome <;> cases h
    · exact .clean
    · exact .refuse (by simp)
  | returned ok => cases h

/-! ## What one step does -/

/-- How far the file of a call is written. -/
def Pc.Written (call : Call) (fs : Fs) : Pc → Prop
  | .settingMode file => (fs.files file).bytes = []
  | .writing file rest =>
    (fs.files file).bytes ++ rest = call.bytes ∧ (fs.files file).mode = call.published.mode
  | .publishing file => fs.files file = call.published
  | _ => True

/-- The call has gone past its rename. -/
def Pc.renamed : Pc → Bool
  | .syncingParent | .returned true => true
  | _ => false

/-- The call has not touched the temporary name. -/
def Pc.untouched : Pc → Bool
  | .opening | .removing | .returned false => true
  | _ => false

/-- The call has given up. -/
def Pc.failed : Pc → Bool
  | .cleaning | .returned false => true
  | _ => false

namespace Effect

variable {call : Call} {fs fs' : Fs} {pc pc' : Pc} {f : Nat}

theorem next_le (h : Effect call fs pc fs' pc') : fs.next ≤ fs'.next := by
  cases h <;> simp [Fs.create, Fs.removeTemp, Fs.setMode, Fs.append, Fs.rename]

/-- A step changes only the file that its call is still to change. -/
theorem files_eq (h : Effect call fs pc fs' pc') (hf : f < fs.next) (hpc : pc.pending ≠ some f) :
    fs'.files f = fs.files f := by
  cases h with
  | create htemp h => exact Function.update_of_ne (by omega) _ _
  | mode file =>
    have hne : f ≠ file := by
      rintro rfl
      exact hpc rfl
    exact Function.update_of_ne hne _ _
  | write file bytes rest h =>
    have hne : f ≠ file := by
      rintro rfl
      cases bytes with
      | nil => exact h rfl
      | cons b bytes => exact hpc rfl
    exact Function.update_of_ne hne _ _
  | _ => rfl

/-- The file of a call is the one it had, or a new one. -/
theorem file_cases (h : Effect call fs pc fs' pc') (hf : pc'.file = some f) :
    pc.file = some f ∨ f = fs.next ∧ fs'.next = fs.next + 1 := by
  cases h with
  | create htemp h =>
    right
    rcases h with rfl | ⟨-, rfl⟩ <;> cases hf <;> exact ⟨rfl, rfl⟩
  | mode | write | sync => exact .inl hf
  | _ => cases hf

/-- A call comes to change only a file that it was to change already, or a new one. -/
theorem pending_of_old (h : Effect call fs pc fs' pc') (hf : f < fs.next) (hp : pc'.pending = some f) :
    pc.pending = some f := by
  cases h with
  | create htemp h => rcases h with rfl | ⟨-, rfl⟩ <;> cases hcall : call.bytes <;> simp_all [Pc.pending]
  | mode file =>
    cases hcall : call.bytes <;> simp_all [Pc.pending]
  | write file bytes rest h => cases bytes <;> cases rest <;> simp_all [Pc.pending]
  | _ => cases hp

theorem written (h : Effect call fs pc fs' pc') (hw : pc.Written call fs) : pc'.Written call fs' := by
  cases h with
  | create htemp h =>
    rcases h with rfl | ⟨hmode, rfl⟩
    · simp [Pc.Written, Fs.create]
    · simp [Pc.Written, Fs.create, Call.published, hmode]
  | mode file =>
    have hbytes : (fs.files file).bytes = [] := hw
    simp [Pc.Written, Fs.setMode, hbytes]
  | write file bytes rest h =>
    obtain ⟨hbytes, hmode⟩ : (fs.files file).bytes ++ (bytes ++ rest) = call.bytes ∧
        (fs.files file).mode = call.published.mode := hw
    refine ⟨?_, ?_⟩
    · simp [Fs.append, hbytes]
    · simp [Fs.append, hmode]
  | sync file =>
    obtain ⟨hbytes, hmode⟩ : (fs.files file).bytes ++ [] = call.bytes ∧ (fs.files file).mode = call.published.mode := hw
    rw [List.append_nil] at hbytes
    exact Call.eq_published hbytes hmode
  | _ => trivial

theorem temp_cases (h : Effect call fs pc fs' pc') (hf : fs'.temp = some f) :
    fs.temp = some f ∧ (pc.untouched = true → pc'.untouched = true) ∨ f = fs.next ∧ fs'.next = fs.next + 1 := by
  cases h with
  | create htemp h =>
    cases hf
    exact .inr ⟨rfl, rfl⟩
  | unlink | rename | clean => cases hf
  | «open» | refuse => exact .inl ⟨hf, fun _ => rfl⟩
  | abort h =>
    refine .inl ⟨hf, fun hu => ?_⟩
    cases pc <;> simp [Pc.file, Pc.untouched] at h hu
  | _ => exact .inl ⟨hf, fun hu => by cases hu⟩

theorem dest_cases (h : Effect call fs pc fs' pc') :
    fs'.dest = fs.dest ∧ (pc'.renamed = true → pc.renamed = true) ∨
      ∃ own file, pc = .publishing own ∧ fs.temp = some file ∧ fs' = fs.rename file ∧ pc' = .syncingParent := by
  cases h with
  | create htemp h =>
    refine .inl ⟨rfl, fun hr => ?_⟩
    rcases h with rfl | ⟨-, rfl⟩ <;> cases hr
  | finish => exact .inl ⟨rfl, fun _ => rfl⟩
  | rename own file h => exact .inr ⟨own, file, rfl, h, rfl, rfl⟩
  | _ => exact .inl ⟨rfl, fun hr => by cases hr⟩

/-- A call that has renamed has done so before, or does so now. -/
theorem renamed_cases (h : Effect call fs pc fs' pc') (hr : pc'.renamed = true) : pc.renamed = true ∧ fs' = fs ∨
    ∃ own file, pc = .publishing own ∧ fs.temp = some file ∧ fs' = fs.rename file := by
  cases h with
  | create htemp h => rcases h with rfl | ⟨-, rfl⟩ <;> cases hr
  | finish => exact .inl ⟨rfl, rfl⟩
  | rename own file h => exact .inr ⟨own, file, rfl, h, rfl⟩
  | _ => cases hr

/-- A new file has its call. -/
theorem created_cases (h : Effect call fs pc fs' pc') :
    fs'.next = fs.next ∨ fs'.next = fs.next + 1 ∧ pc'.file = some fs.next := by
  cases h with
  | create htemp h =>
    right
    rcases h with rfl | ⟨-, rfl⟩ <;> exact ⟨rfl, rfl⟩
  | _ => exact .inl rfl

theorem begun (h : Effect call fs pc fs' pc') : pc' ≠ .opening := by
  cases h with
  | create htemp h => rcases h with rfl | ⟨-, rfl⟩ <;> simp
  | _ => simp

/-- A call that leaves its file has failed, or it has renamed, and the temporary name is free. -/
theorem keeps (h : Effect call fs pc fs' pc') (hf : pc.file = some f ∨ pc.failed = true) :
    pc'.file = some f ∨ pc'.failed = true ∨ fs'.temp = none := by
  cases h with
  | mode | write | sync => exact .inl (hf.resolve_right (by simp [Pc.failed]))
  | refuse | abort | clean => exact .inr (.inl rfl)
  | rename own file h => exact .inr (.inr rfl)
  | _ => simp [Pc.file, Pc.failed] at hf

theorem failed (h : Effect call fs pc fs' pc') (hf : pc.failed = true) : pc'.failed = true := by
  cases h with
  | refuse | abort | clean => rfl
  | _ => simp [Pc.failed] at hf

/-- A call that has renamed stays so, or reports a failure all the same. -/
theorem renamed_or_failed (h : Effect call fs pc fs' pc') (hr : pc.renamed = true ∨ pc.failed = true) :
    pc'.renamed = true ∨ pc'.failed = true := by
  cases h with
  | finish => exact .inl rfl
  | refuse | clean => exact .inr rfl
  | abort h => exact .inr rfl
  | _ => simp [Pc.renamed, Pc.failed] at hr

/-- A call that leaves its file has failed, or the file is complete. -/
theorem leaves (h : Effect call fs pc fs' pc') (hw : pc.Written call fs) (hf : pc.file = some f ∨ pc.failed = true) :
    fs'.files f = call.published ∨ pc'.file = some f ∨ pc'.failed = true := by
  cases h with
  | mode | write | sync => exact .inr (.inl (hf.resolve_right (by simp [Pc.failed])))
  | refuse | abort | clean => exact .inr (.inr rfl)
  | rename own file h =>
    left
    obtain rfl : own = f := Option.some.inj (hf.resolve_right (by simp [Pc.failed]))
    exact hw
  | _ => simp [Pc.file, Pc.failed] at hf

end Effect

/-! ## Calls side by side -/

section calls

variable {ι : Type} [DecidableEq ι] (calls : ι → Call)

structure Sys (ι : Type) where
  fs : Fs
  pcs : ι → Pc

/-- One step of one call. -/
def step (s : Sys ι) (event : ι × Outcome) : Option (Sys ι) :=
  ((calls event.1).step s.fs (s.pcs event.1) event.2).map fun x => ⟨x.1, Function.update s.pcs event.1 x.2⟩

/-- No call has begun. The directory holds what it held: perhaps a destination, perhaps a stale temporary file. -/
structure Initial (original : Fs) (s : Sys ι) : Prop where
  fs : s.fs = original
  pcs : ∀ p, s.pcs p = .opening
  dest : ∀ file, original.dest = some file → file < original.next
  temp : ∀ file, original.temp = some file → file < original.next

/-- A rename finds a file that the call which created it has finished writing. -/
def Undisturbed (s : Sys ι) (event : ι × Outcome) : Prop :=
  ∀ own file, s.pcs event.1 = .publishing own → s.fs.temp = some file →
    ∃ q, (s.pcs q).file = some file ∧ (s.pcs q).pending = none

/-- What atomic replacement promises. -/
structure AtomicReplace (original : Fs) (s : Sys ι) : Prop where
  /-- A reader finds the original or what one call writes. -/
  always : s.fs.read = original.read ∨ ∃ p, s.fs.read = some (calls p).published
  /-- When all calls have succeeded, it is what one of them writes. -/
  returned : (∀ p, s.pcs p = .returned true) → ∃ p, s.fs.read = some (calls p).published

/-- The destination is a file that one of the calls has created. -/
def Replaced (original : Fs) (s : Sys ι) : Prop :=
  ∃ file, s.fs.dest = some file ∧ original.next ≤ file ∧ file < s.fs.next

/-- What every interleaving keeps. -/
structure Inv (original : Fs) (s : Sys ι) : Prop where
  initial : ∀ file, original.dest = some file → file < original.next
  next : original.next ≤ s.fs.next
  old : ∀ file < original.next, s.fs.files file = original.files file
  file : ∀ p file, (s.pcs p).file = some file → original.next ≤ file ∧ file < s.fs.next
  owner : ∀ p q file, (s.pcs p).file = some file → (s.pcs q).file = some file → p = q
  written : ∀ p, (s.pcs p).Written (calls p) s.fs
  created : ∀ file, original.next ≤ file → file < s.fs.next → ∃ p, s.pcs p ≠ .opening ∧
    (s.fs.files file = (calls p).published ∨ (s.pcs p).file = some file ∨ (s.pcs p).failed = true)
  temp : ∀ file, s.fs.temp = some file → file < s.fs.next ∧ ((∀ p, (s.pcs p).untouched = true) ∨
    original.next ≤ file ∧ ∃ p, (s.pcs p).file = some file ∨ (s.pcs p).failed = true)
  dest : s.fs.dest = original.dest ∨ Replaced original s ∧ ∃ p, (s.pcs p).renamed = true ∨ (s.pcs p).failed = true
  renamed : ∀ p, (s.pcs p).renamed = true → Replaced original s

section invariant

theorem Pc.file_of_pending {pc : Pc} {f : Nat} (h : pc.pending = some f) : pc.file = some f := by
  cases pc with
  | settingMode file => exact h
  | writing file rest =>
    cases rest with
    | nil => cases h
    | cons b rest => exact h
  | _ => cases h

variable {calls} {original : Fs} {s s' : Sys ι} {event : ι × Outcome}

/-- A step is made by one call; the others stay where they are. -/
theorem step_effect (h : step calls s event = some s') :
    Effect (calls event.1) s.fs (s.pcs event.1) s'.fs (s'.pcs event.1) ∧ ∀ q ≠ event.1, s'.pcs q = s.pcs q := by
  obtain ⟨⟨fs', pc'⟩, hstep, rfl⟩ := Option.map_eq_some_iff.mp h
  refine ⟨?_, fun q hq => Function.update_of_ne hq _ _⟩
  simpa using Call.step_effect hstep

/-- The state of a call does not depend on the files of the others. -/
theorem Pc.Written.congr {call : Call} {fs fs' : Fs} {pc : Pc} (hw : pc.Written call fs)
    (h : ∀ f, pc.file = some f → fs'.files f = fs.files f) : pc.Written call fs' := by
  cases pc with
  | settingMode f | writing f rest | publishing f =>
    simp only [Pc.Written, h f rfl] at hw ⊢
    exact hw
  | _ => trivial

omit [DecidableEq ι] in
theorem Inv.init (h : Initial original s) : Inv calls original s := by
  obtain ⟨rfl, hpcs, hdest, htemp⟩ := h
  refine ⟨hdest, Nat.le_refl _, fun _ _ => rfl, ?_, ?_, ?_, ?_, ?_, .inl rfl, ?_⟩
  · intro p f hf
    rw [hpcs] at hf
    cases hf
  · intro p q f hf
    rw [hpcs] at hf
    cases hf
  · intro p
    rw [hpcs]
    trivial
  · intro f hle hlt
    omega
  · intro f hf
    exact ⟨htemp f hf, .inl fun p => by rw [hpcs]; rfl⟩
  · intro p hp
    rw [hpcs] at hp
    cases hp

omit [DecidableEq ι] in
/-- The file that a rename moves was made by one of the calls. -/
theorem Inv.temp_new (h : Inv calls original s) {p : ι} {own f : Nat} (hp : s.pcs p = .publishing own)
    (hf : s.fs.temp = some f) : original.next ≤ f := by
  refine ((h.temp f hf).2.resolve_left fun hall => ?_).1
  have hu := hall p
  rw [hp] at hu
  cases hu

theorem Inv.effect {p : ι} (h : Inv calls original s) (heff : Effect (calls p) s.fs (s.pcs p) s'.fs (s'.pcs p))
    (hothers : ∀ q ≠ p, s'.pcs q = s.pcs q) : Inv calls original s' := by
  have hnext := heff.next_le
  -- The files of the other calls are not touched.
  have hframe : ∀ q f, q ≠ p → (s.pcs q).file = some f → s'.fs.files f = s.fs.files f := fun q f hqp hq =>
    heff.files_eq (h.file q f hq).2 fun hp => hqp (h.owner q p f hq (Pc.file_of_pending hp))
  -- A new file is nobody else's.
  have hnew : ∀ q f, q ≠ p → (s'.pcs p).file = some f → (s.pcs q).file ≠ some f := by
    intro q f hqp hp hq
    rcases heff.file_cases hp with hold | ⟨rfl, -⟩
    · exact hqp (h.owner q p f hq hold)
    · exact Nat.lt_irrefl _ (h.file q _ hq).2
  have hdest : s'.fs.dest = s.fs.dest ∧ ((s'.pcs p).renamed = true → (s.pcs p).renamed = true) ∧
      (Replaced original s → Replaced original s') ∨ Replaced original s' ∧ (s'.pcs p).renamed = true := by
    rcases heff.dest_cases with ⟨hdest, hrenamed⟩ | ⟨own, f, hpc, htemp, hfs, hpc'⟩
    · refine .inl ⟨hdest, hrenamed, fun ⟨f, hf, hle, hlt⟩ => ⟨f, ?_, hle, Nat.lt_of_lt_of_le hlt hnext⟩⟩
      rw [hdest, hf]
    · refine .inr ⟨⟨f, ?_, h.temp_new hpc htemp, ?_⟩, ?_⟩
      · rw [hfs]
        rfl
      · rw [hfs]
        exact (h.temp f htemp).1
      · rw [hpc']
        rfl
  refine ⟨h.initial, Nat.le_trans h.next hnext, ?_, ?_, ?_, ?_, ?_, ?_, ?_, ?_⟩
  · intro f hf
    rw [← h.old f hf]
    refine heff.files_eq (Nat.lt_of_lt_of_le hf h.next) fun hp => ?_
    exact absurd (h.file p f (Pc.file_of_pending hp)).1 (Nat.not_le.mpr hf)
  · intro q f hq
    by_cases hqp : q = p
    · subst hqp
      rcases heff.file_cases hq with hold | ⟨rfl, hsucc⟩
      · exact ⟨(h.file q f hold).1, Nat.lt_of_lt_of_le (h.file q f hold).2 hnext⟩
      · exact ⟨h.next, by omega⟩
    · rw [hothers q hqp] at hq
      exact ⟨(h.file q f hq).1, Nat.lt_of_lt_of_le (h.file q f hq).2 hnext⟩
  · intro q r f hq hr
    by_cases hqp : q = p <;> by_cases hrp : r = p
    · rw [hqp, hrp]
    · subst hqp
      rw [hothers r hrp] at hr
      exact absurd hr (hnew r f hrp hq)
    · subst hrp
      rw [hothers q hqp] at hq
      exact absurd hq (hnew q f hqp hr)
    · rw [hothers q hqp] at hq
      rw [hothers r hrp] at hr
      exact h.owner q r f hq hr
  · intro q
    by_cases hqp : q = p
    · subst hqp
      exact heff.written (h.written q)
    · rw [hothers q hqp]
      exact (h.written q).congr fun f => hframe q f hqp
  · intro f hle hlt
    by_cases hf : f < s.fs.next
    · by_cases hpending : (s.pcs p).pending = some f
      · exact ⟨p, heff.begun, heff.leaves (h.written p) (.inl (Pc.file_of_pending hpending))⟩
      · obtain ⟨q, hbegun, hq⟩ := h.created f hle hf
        by_cases hqp : q = p
        · subst hqp
          refine ⟨q, heff.begun, ?_⟩
          rcases hq with hdone | hq
          · exact .inl ((heff.files_eq hf hpending).trans hdone)
          · exact heff.leaves (h.written q) hq
        · refine ⟨q, ?_⟩
          rw [hothers q hqp]
          exact ⟨hbegun, hq.imp_left (heff.files_eq hf hpending).trans⟩
    · rcases heff.created_cases with hsame | ⟨hsucc, hfile⟩
      · rw [hsame] at hlt
        exact absurd hlt hf
      · obtain rfl : f = s.fs.next := by omega
        exact ⟨p, heff.begun, .inr (.inl hfile)⟩
  · intro f hf
    rcases heff.temp_cases hf with ⟨hold, hu⟩ | ⟨rfl, hsucc⟩
    · obtain ⟨hlt, hwho⟩ := h.temp f hold
      refine ⟨Nat.lt_of_lt_of_le hlt hnext, hwho.imp (fun hall q => ?_) fun ⟨hle, q, hq⟩ => ⟨hle, q, ?_⟩⟩
      · by_cases hqp : q = p
        · subst hqp
          exact hu (hall q)
        · rw [hothers q hqp]
          exact hall q
      · by_cases hqp : q = p
        · subst hqp
          have hkeeps := heff.keeps hq
          rw [hf] at hkeeps
          simpa using hkeeps
        · rw [hothers q hqp]
          exact hq
    · have hfile := (heff.created_cases.resolve_left (by omega)).2
      exact ⟨by omega, .inr ⟨h.next, p, .inl hfile⟩⟩
  · rcases hdest with ⟨hdest, -, hkeep⟩ | ⟨hreplaced, hrenamed⟩
    · rw [hdest]
      refine h.dest.imp_right fun ⟨hreplaced, q, hq⟩ => ⟨hkeep hreplaced, q, ?_⟩
      by_cases hqp : q = p
      · subst hqp
        exact heff.renamed_or_failed hq
      · rw [hothers q hqp]
        exact hq
    · exact .inr ⟨hreplaced, p, .inl hrenamed⟩
  · intro q hq
    rcases hdest with ⟨-, hrenamed, hkeep⟩ | ⟨hreplaced, -⟩
    · refine hkeep (h.renamed q ?_)
      by_cases hqp : q = p
      · subst hqp
        exact hrenamed hq
      · rwa [hothers q hqp] at hq
    · exact hreplaced

theorem Inv.step (h : Inv calls original s) (hs : step calls s event = some s') : Inv calls original s' :=
  h.effect (step_effect hs).1 (step_effect hs).2

omit [DecidableEq ι] in
/-- What a call would write does not matter before it begins and after it has failed. -/
theorem Inv.congr_calls {calls' : ι → Call} (h : Inv calls original s)
    (hcalls : ∀ p, calls' p = calls p ∨ s.pcs p = .opening ∨ (s.pcs p).failed = true) : Inv calls' original s := by
  refine ⟨h.initial, h.next, h.old, h.file, h.owner, ?_, ?_, h.temp, h.dest, h.renamed⟩
  · intro p
    have hw := h.written p
    rcases hcalls p with heq | hpc | hpc
    · rw [heq]
      exact hw
    · rw [hpc]
      trivial
    · revert hpc
      cases s.pcs p <;> simp [Pc.failed, Pc.Written]
  · intro f hle hlt
    obtain ⟨p, hbegun, hp⟩ := h.created f hle hlt
    refine ⟨p, hbegun, ?_⟩
    rcases hcalls p with heq | hpc | hpc
    · rwa [heq]
    · exact absurd hpc hbegun
    · exact .inr (.inr hpc)

theorem reachable_inv {ok : Sys ι → ι × Outcome → Prop} (h : Reachable (step calls) ok (Initial original) s) :
    Inv calls original s :=
  h.invariant (fun _ hs => .init hs) fun _ _ _ hi _ hs => hi.step hs

omit [DecidableEq ι] in
/-- When every call has succeeded, the destination is the file of one of them. This takes no condition on the run. -/
theorem Inv.returned [Nonempty ι] (h : Inv calls original s) (hall : ∀ p, s.pcs p = .returned true) :
    ∃ p, s.fs.read = some (calls p).published := by
  obtain ⟨p⟩ := ‹Nonempty ι›
  obtain ⟨f, hdest, hle, hlt⟩ := h.renamed p (by rw [hall]; rfl)
  obtain ⟨q, -, hq⟩ := h.created f hle hlt
  refine ⟨q, ?_⟩
  rw [hall] at hq
  simpa [Fs.read, hdest, Pc.file, Pc.failed] using hq

/-- The file is complete and nobody is still to change it. -/
def Settled (calls : ι → Call) (s : Sys ι) (file : Nat) : Prop :=
  (∃ p, s.fs.files file = (calls p).published) ∧ ∀ q, (s.pcs q).pending ≠ some file

omit [DecidableEq ι] in
/-- A file whose own call has finished writing is settled. -/
theorem Inv.settled_of_finished (h : Inv calls original s) {q : ι} {f : Nat} (hf : (s.pcs q).file = some f)
    (hpending : (s.pcs q).pending = none) : Settled calls s f := by
  have hw := h.written q
  constructor
  · refine ⟨q, ?_⟩
    cases hpc : s.pcs q with
    | writing file rest =>
      rw [hpc] at hf hpending hw
      cases hf
      cases rest with
      | nil =>
        obtain ⟨hbytes, hmode⟩ := hw
        rw [List.append_nil] at hbytes
        exact Call.eq_published hbytes hmode
      | cons b rest => cases hpending
    | publishing file =>
      rw [hpc] at hf hw
      cases hf
      exact hw
    | settingMode file =>
      rw [hpc] at hpending
      cases hpending
    | _ =>
      rw [hpc] at hf
      cases hf
  · intro r hr
    obtain rfl := h.owner q r f hf (Pc.file_of_pending hr)
    rw [hpending] at hr
    cases hr

theorem settled_step (hs : step calls s event = some s') {f : Nat} (hlt : f < s.fs.next)
    (hsettled : Settled calls s f) : Settled calls s' f := by
  obtain ⟨heff, hothers⟩ := step_effect hs
  obtain ⟨⟨q, hq⟩, hpending⟩ := hsettled
  refine ⟨⟨q, (heff.files_eq hlt (hpending _)).trans hq⟩, fun r hr => ?_⟩
  by_cases hrp : r = event.1
  · subst hrp
    exact hpending _ (heff.pending_of_old hlt hr)
  · rw [hothers r hrp] at hr
    exact hpending r hr

/-- Under the condition, a destination that a call has created is settled. -/
theorem reachable_settled (h : Reachable (step calls) Undisturbed (Initial original) s) :
    ∀ f, s.fs.dest = some f → original.next ≤ f → Settled calls s f := by
  induction h with
  | start hinit =>
    intro f hf hle
    rw [hinit.fs] at hf
    exact absurd (hinit.dest f hf) (Nat.not_lt.mpr hle)
  | next event hr hok hs ih =>
    intro f hf hle
    have hinv := reachable_inv hr
    obtain ⟨heff, -⟩ := step_effect hs
    rcases heff.dest_cases with ⟨hdest, -⟩ | ⟨own, g, hpc, htemp, hfs, -⟩
    · rw [hdest] at hf
      have hreplaced := hinv.dest.resolve_left fun hold =>
        absurd (hinv.initial f (hold.symm.trans hf)) (Nat.not_lt.mpr hle)
      obtain ⟨⟨g, hg, -, hlt⟩, -⟩ := hreplaced
      cases hf.symm.trans hg
      exact settled_step hs hlt (ih f hf hle)
    · rw [hfs] at hf
      cases hf
      obtain ⟨q, hq, hpending⟩ := hok own _ hpc htemp
      exact settled_step hs (hinv.temp _ htemp).1 (hinv.settled_of_finished hq hpending)

omit [DecidableEq ι] in
/-- Until a call replaces it, the destination is the original. -/
theorem Inv.read_original (h : Inv calls original s) (hdest : s.fs.dest = original.dest) : s.fs.read = original.read := by
  rw [Fs.read, Fs.read, hdest]
  cases hf : original.dest with
  | none => rfl
  | some f => rw [Option.map_some, Option.map_some, h.old f (h.initial f hf)]

end invariant

/-- **Atomic replacement** in every run in which no call renames a file that another is still to write. -/
theorem reachable_atomicReplace [Nonempty ι] {original : Fs} {s : Sys ι}
    (h : Reachable (step calls) Undisturbed (Initial original) s) : AtomicReplace calls original s := by
  have hinv := reachable_inv h
  refine ⟨?_, hinv.returned⟩
  rcases hinv.dest with hdest | ⟨⟨f, hf, hle, -⟩, -⟩
  · exact .inl (hinv.read_original hdest)
  · obtain ⟨⟨p, hp⟩, -⟩ := reachable_settled h f hf hle
    exact .inr ⟨p, by rw [Fs.read, hf, Option.map_some, hp]⟩

end calls

/-! ## Two writers of one spec -/

/-- A directory with an old spec. -/
def oldSpec : Fs := ⟨fun _ => ⟨bytes "cpus = 1", 0o600⟩, some 0, none, 1⟩

/-- Two patches of a running machine. -/
def twoPatches : Bool → Call
  | false => ⟨bytes "cpus = 2", some 0o600, 0o022⟩
  | true => ⟨bytes "memory = \"4G\"", some 0o600, 0o022⟩

def begun : Sys Bool := ⟨oldSpec, fun _ => .opening⟩

theorem begun_initial : Initial oldSpec begun := by
  refine ⟨rfl, fun _ => rfl, ?_, ?_⟩
  · intro file hfile
    cases hfile
    decide
  · intro file hfile
    cases hfile

/-- One call from its first to its last step. -/
def wholeCall (p : Bool) (length : Nat) : List (Bool × Outcome) :=
  [(p, .done 0), (p, .done 0), (p, .done 0), (p, .done 0), (p, .done length), (p, .done 0), (p, .done 0), (p, .done 0)]

def undisturbedCheck (s : Sys Bool) (event : Bool × Outcome) : Bool :=
  match s.pcs event.1, s.fs.temp with
  | .publishing _, some file => [false, true].any fun q => (s.pcs q).file == some file && (s.pcs q).pending == none
  | _, _ => true

theorem undisturbed_of_check (s : Sys Bool) (event : Bool × Outcome) (h : undisturbedCheck s event = true) :
    Undisturbed s event := by
  intro own file hpc htemp
  rw [undisturbedCheck, hpc, htemp] at h
  obtain ⟨q, -, hq⟩ := List.any_eq_true.mp h
  exact ⟨q, by simpa using hq⟩

/-- One call after the other. -/
theorem reachable_atomicReplace_serial : ∃ s, Reachable (step twoPatches) Undisturbed (Initial oldSpec) s ∧
    (∀ p, s.pcs p = .returned true) ∧ AtomicReplace twoPatches oldSpec s := by
  have hrun : (run (step twoPatches) begun (wholeCall false 8 ++ wholeCall true 13)).any
      (fun s => s.pcs false == .returned true && s.pcs true == .returned true) = true := by
    decide
  obtain ⟨s, hs, hcheck⟩ := (Option.any_eq_true _ _).mp hrun
  have hmeet : StepsMeet (step twoPatches) Undisturbed begun (wholeCall false 8 ++ wholeCall true 13) :=
    .of_checks undisturbed_of_check (by decide)
  have hr := (Reachable.start begun_initial).run hmeet hs
  have hpcs : s.pcs false = .returned true ∧ s.pcs true = .returned true := by simpa using hcheck
  refine ⟨s, hr, fun p => ?_, reachable_atomicReplace twoPatches hr⟩
  cases p
  · exact hpcs.1
  · exact hpcs.2

/-- The second call unlinks the file of the first, which then renames what the second has written so far. -/
def tornRun : List (Bool × Outcome) :=
  [(false, .done 0), (false, .done 0), (false, .done 0), (false, .done 0), (false, .done 8), (false, .done 0),
    (true, .done 0), (true, .done 0), (true, .done 0), (true, .done 0), (true, .done 6), (false, .done 0)]

theorem torn_spec : ¬ ∀ s, Reachable (step twoPatches) anyStep (Initial oldSpec) s → AtomicReplace twoPatches oldSpec s := by
  intro h
  have hrun : (run (step twoPatches) begun tornRun).any (fun s => s.fs.read == some ⟨bytes "memory", 0o600⟩) = true := by
    decide
  obtain ⟨s, hs, hcheck⟩ := (Option.any_eq_true _ _).mp hrun
  have hread : s.fs.read = some ⟨bytes "memory", 0o600⟩ := by simpa using hcheck
  rcases (h s (reachable_of_run begun_initial hs)).always with hold | ⟨p, hp⟩
  · rw [hread] at hold
    revert hold
    decide
  · rw [hread] at hp
    revert p
    decide

end Firestone.Atomic
