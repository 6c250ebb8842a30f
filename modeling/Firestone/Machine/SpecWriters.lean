import Firestone.Atomic
import Firestone.Spec

/-!
# Two writers of one spec

`patch_spec` and `resize` read `firestone.toml`, merge their patch into it and replace the file. They hold the machine
lock meanwhile, except on a running machine, whose shim holds the lock for its whole lifetime: there they take no lock.

* `Action.update` — the document an action writes for the one it has read.
* `step` — two actions, interleaved down to the file-system steps of the replacement.
* `twoUpdates` — when both have succeeded, the file is what one of them makes of the original or of what the other has
  made of it; when neither found the machine running, it is the second of these.
-/

namespace Firestone.Machine.SpecWriters

open Firestone.Lib

/-! ## Documents -/

/-- What loading a spec document uses: the TOML reader and writer, the anchoring of paths in a patch, the validation
against the host and the global defaults. -/
structure SpecEnv where
  fromToml : Bytes → Res MachineSpecPatch
  toToml : MachineSpecPatch → Res Bytes
  resolvePaths : MachineSpecPatch → Res MachineSpecPatch
  validate : MachineSpec → Res MachineSpec
  globalDefaults : MachineSpecPatch

/-- `load_spec_text_with_patch`. -/
def SpecEnv.load (env : SpecEnv) (text : Bytes) (patch : MachineSpecPatch) : Res MachineSpec := do
  let machine ← env.fromToml text
  let resolved ← env.resolvePaths patch
  let spec ← MachineSpec.fromLayers env.globalDefaults machine resolved
  env.validate spec

/-- The lines of a text, each with its line feed. -/
def ofLines (lines : List String) : Bytes := lines.flatMap fun line => bytes line ++ [0x0A]

/-- `SPEC_TEMPLATE`. -/
def specTemplate : Bytes := ofLines [
  "# Firestone machine specification.",
  "#",
  "# `image` accepts a catalog reference, HTTPS URL, local qcow2/raw path, or an",
  "# OCI reference such as `docker://nginx` or `ghcr.io/owner/app:v1`. Registries",
  "# reachable only over plain HTTP go in `[images].insecure_registries` in",
  "# `~/.config/firestone/config.toml`, as bare `host` or `host:port` entries.",
  "# `arch` defaults to the host and may be `x86_64` or `aarch64`.",
  "# CPU, memory, and disk values can also be set by `firestone create` flags.",
  "#",
  "# `cpus_max` and `memory_max` are optional headroom for `firestone resize`.",
  "# When set they must be at least `cpus` and `memory`, they are declared to the",
  "# VMM at boot, and only then can a running machine be resized live. Raising",
  "# `disk` grows the overlay on the next start; lowering it is refused.",
  "#",
  "# Network modes: `passt` (default), `tap`, or `none`. Repeat `forward`",
  "# entries for port mappings such as `8080:80` or `udp:5353:53`.",
  "#",
  "# Add `[[mount]]` tables for shared directories. Cloud-init paths are resolved",
  "# relative to this file. `vmm.config_overlay` is an advanced JSON merge patch.",
  "#",
  "# Cloud-init takes one user part: either `cloud_init.user_data` (a file) or",
  "# `cloud_init.user_data_inline` (up to 32 KiB inline). Both start with",
  "# `#cloud-config` or `#!`. `ssh_keys` lists public key files and",
  "# `ssh_authorized_keys` lists key lines; duplicates across both are dropped.",
  "#",
  "# `cloud_init.password` is the plaintext login password for `user`, applied",
  "# with cloud-init `chpasswd`. This file is written mode 0600 because of it.",
  "# Console and local login accept it; guest SSH password authentication stays",
  "# off until `cloud_init.ssh_pwauth = true`. Changing either re-provisions the",
  "# guest on the next start.",
  "#",
  "# The effective values for this machine follow."]

def SpecEnv.renderSpec (env : SpecEnv) (spec : MachineSpec) : Res Bytes := do
  let effective ← env.toToml (.ofSpec spec)
  return specTemplate ++ 0x0A :: effective

inductive Request
  | patchSpec (patch : MachineSpecPatch)
  | resize (cpus : Option UInt8) (memory : Option ByteSize)

def Request.patch : Request → MachineSpecPatch
  | .patchSpec patch => patch
  | .resize cpus memory => { cpus := cpus, memory := memory }

/-- `resize` replaces the spec without a mode. -/
def Request.mode : Request → Option UInt32
  | .patchSpec _ => some 0o600
  | .resize _ _ => none

structure Action where
  request : Request
  env : SpecEnv
  umask : UInt32

def Action.update (action : Action) (text : Bytes) : Res Bytes := do
  let spec ← action.env.load text action.request.patch
  action.env.renderSpec spec

def Action.call (action : Action) (document : Bytes) : Atomic.Call := ⟨document, action.request.mode, action.umask⟩

/-! ## Steps -/

/-- Where an action stands; `locked` says that it took the lock, `text` is what it has read and `document` what it
writes. -/
inductive Pc
  | opening
  | locking
  | checking
  | reading (locked : Bool)
  | merging (locked : Bool) (text : Bytes)
  /-- The VMM call of a live resize. -/
  | calling (locked : Bool) (text document : Bytes)
  | saving (locked : Bool) (text document : Bytes) (pc : Atomic.Pc)
  | done (text document : Bytes)
  | failed
  deriving DecidableEq, Repr

structure Sys where
  fs : Atomic.Fs
  lock : Option Bool
  pcs : Bool → Pc

inductive Event
  /-- `read_live_state`. -/
  | observe (running : Bool)
  | acquire
  /-- `read_live_state_locked`. -/
  | recheck (running : Bool)
  | read
  | merge
  | call
  | save (outcome : Atomic.Outcome)
  | report
  | fail
  deriving DecidableEq, Repr

def Sys.goto (s : Sys) (p : Bool) (pc : Pc) : Sys := { s with pcs := Function.update s.pcs p pc }

/-- The lock goes when its holder returns. -/
def Sys.leave (s : Sys) (p : Bool) (pc : Pc) : Sys :=
  { s.goto p pc with lock := if s.lock = some p then none else s.lock }

variable (actions : Bool → Action)

/-- One step of one action. An error ends it wherever it stands, but the replacement fails by its own steps. -/
def step (s : Sys) (event : Bool × Event) : Option Sys :=
  let p := event.1
  match s.pcs p, event.2 with
  | .opening, .observe true => some (s.goto p (.reading false))
  | .opening, .observe false => some (s.goto p .locking)
  | .locking, .acquire => if s.lock = none then some { s.goto p .checking with lock := some p } else none
  | .checking, .recheck true => some (s.leave p .failed)
  | .checking, .recheck false => some (s.goto p (.reading true))
  | .reading locked, .read =>
    match s.fs.read with
    | some file => some (s.goto p (.merging locked file.bytes))
    | none => some (s.leave p .failed)
  | .merging locked text, .merge =>
    match (actions p).update text with
    | .ok document => some (s.goto p (.calling locked text document))
    | .error _ => some (s.leave p .failed)
  | .calling locked text document, .call => some (s.goto p (.saving locked text document .opening))
  | .saving locked text document pc, .save outcome =>
    (((actions p).call document).step s.fs pc outcome).map fun x =>
      { s.goto p (.saving locked text document x.2) with fs := x.1 }
  | .saving _ text document (.returned true), .report => some (s.leave p (.done text document))
  | .saving _ _ _ (.returned false), .fail => some (s.leave p .failed)
  | .saving _ _ _ _, .fail => none
  | .done _ _, _ => none
  | .failed, _ => none
  | _, .fail => some (s.leave p .failed)
  | _, _ => none

/-- Neither action has begun. -/
structure Initial (original : Atomic.Fs) (s : Sys) : Prop where
  fs : s.fs = original
  pcs : ∀ p, s.pcs p = .opening
  lock : s.lock = none
  dest : ∀ file, original.dest = some file → file < original.next
  temp : ∀ file, original.temp = some file → file < original.next

/-- No action finds the machine running. -/
def NotRunning (_ : Sys) (event : Bool × Event) : Prop := event.2 ≠ .observe true

/-- The document that a reader finds. -/
def Sys.document (s : Sys) : Option Bytes := s.fs.read.map (·.bytes)

/-- Where the replacement of an action stands. -/
def Pc.atomic : Pc → Atomic.Pc
  | .saving _ _ _ pc => pc
  | .done _ _ => .returned true
  | .failed => .returned false
  | _ => .opening

/-- Everything one step may do: from where, to where, and what it does to the files and the lock. -/
inductive Move (s : Sys) (p : Bool) (e : Event) : Pc → Pc → Atomic.Fs → Option Bool → Prop
  | unlocked (h : e = .observe true) : Move s p e .opening (.reading false) s.fs s.lock
  | wait : Move s p e .opening .locking s.fs s.lock
  | acquire (h : s.lock = none) : Move s p e .locking .checking s.fs (some p)
  | recheck : Move s p e .checking (.reading true) s.fs s.lock
  | read (locked : Bool) (file : Atomic.File) (h : s.fs.read = some file) :
      Move s p e (.reading locked) (.merging locked file.bytes) s.fs s.lock
  | merge (locked : Bool) (text document : Bytes) (h : (actions p).update text = .ok document) :
      Move s p e (.merging locked text) (.calling locked text document) s.fs s.lock
  | call (locked : Bool) (text document : Bytes) :
      Move s p e (.calling locked text document) (.saving locked text document .opening) s.fs s.lock
  | save (locked : Bool) (text document : Bytes) {pc pc' : Atomic.Pc} {fs' : Atomic.Fs}
      (h : Atomic.Effect ((actions p).call document) s.fs pc fs' pc') :
      Move s p e (.saving locked text document pc) (.saving locked text document pc') fs' s.lock
  | report (locked : Bool) (text document : Bytes) :
      Move s p e (.saving locked text document (.returned true)) (.done text document) s.fs
        (if s.lock = some p then none else s.lock)
  | fail {pc : Pc} (h : pc.atomic = .opening ∨ pc.atomic = .returned false) :
      Move s p e pc .failed s.fs (if s.lock = some p then none else s.lock)

variable {actions}

section moves

variable {s s' : Sys} {event : Bool × Event}

theorem step_move (h : step actions s event = some s') :
    Move actions s event.1 event.2 (s.pcs event.1) (s'.pcs event.1) s'.fs s'.lock ∧ s'.pcs (!event.1) = s.pcs (!event.1) := by
  obtain ⟨p, e⟩ := event
  dsimp only
  have hself : ∀ pc, (s.goto p pc).pcs p = pc := fun pc => Function.update_self ..
  have hother : ∀ pc, (s.goto p pc).pcs (!p) = s.pcs (!p) := fun pc => Function.update_of_ne (by simp) _ _
  -- An action that fails leaves, wherever it stands before the replacement.
  have hfail : (s.pcs p).atomic = .opening ∨ (s.pcs p).atomic = .returned false → some (s.leave p .failed) = some s' →
      Move actions s p e (s.pcs p) (s'.pcs p) s'.fs s'.lock ∧ s'.pcs (!p) = s.pcs (!p) := by
    intro hatomic hs
    cases hs
    refine ⟨?_, hother _⟩
    rw [show (s.leave p .failed).pcs p = .failed from hself _]
    exact .fail hatomic
  cases hpc : s.pcs p <;> rw [hpc] at hfail
  case opening =>
    cases e <;> simp only [step, hpc] at h
    case observe running =>
      cases running <;> cases h
      · exact ⟨by rw [hself]; exact .wait, hother _⟩
      · exact ⟨by rw [hself]; exact .unlocked rfl, hother _⟩
    case fail => exact hfail (.inl rfl) h
    all_goals cases h
  case locking =>
    cases e <;> simp only [step, hpc] at h
    case acquire =>
      split at h
      · rename_i hlock
        cases h
        exact ⟨by rw [show Sys.pcs _ p = .checking from hself _]; exact .acquire hlock, hother _⟩
      · cases h
    case fail => exact hfail (.inl rfl) h
    all_goals cases h
  case checking =>
    cases e <;> simp only [step, hpc] at h
    case recheck running =>
      cases running
      · cases h
        exact ⟨by rw [hself]; exact .recheck, hother _⟩
      · exact hfail (.inl rfl) h
    case fail => exact hfail (.inl rfl) h
    all_goals cases h
  case reading locked =>
    cases e <;> simp only [step, hpc] at h
    case read =>
      split at h
      · rename_i file hfile
        cases h
        exact ⟨by rw [hself]; exact .read locked file hfile, hother _⟩
      · exact hfail (.inl rfl) h
    case fail => exact hfail (.inl rfl) h
    all_goals cases h
  case merging locked text =>
    cases e <;> simp only [step, hpc] at h
    case merge =>
      split at h
      · rename_i document hdocument
        cases h
        exact ⟨by rw [hself]; exact .merge locked text document hdocument, hother _⟩
      · exact hfail (.inl rfl) h
    case fail => exact hfail (.inl rfl) h
    all_goals cases h
  case calling locked text document =>
    cases e <;> simp only [step, hpc] at h
    case call =>
      cases h
      exact ⟨by rw [hself]; exact .call locked text document, hother _⟩
    case fail => exact hfail (.inl rfl) h
    all_goals cases h
  case saving locked text document pc =>
    cases e with
    | save outcome =>
      simp only [step, hpc] at h
      obtain ⟨⟨fs', pc'⟩, hsave, rfl⟩ := Option.map_eq_some_iff.mp h
      refine ⟨?_, hother _⟩
      rw [show Sys.pcs _ p = .saving locked text document pc' from hself _]
      exact .save locked text document (Atomic.Call.step_effect hsave)
    | report =>
      cases pc with
      | returned ok =>
        cases ok <;> simp only [step, hpc] at h <;> cases h
        refine ⟨?_, hother _⟩
        rw [show (s.leave p (.done text document)).pcs p = .done text document from hself _]
        exact .report locked text document
      | _ =>
        simp only [step, hpc] at h
        cases h
    | fail =>
      cases pc with
      | returned ok =>
        cases ok <;> simp only [step, hpc] at h
        · exact hfail (.inr rfl) h
        · cases h
      | _ =>
        simp only [step, hpc] at h
        cases h
    | _ =>
      simp only [step, hpc] at h
      cases h
  case done text document =>
    cases e <;> simp only [step, hpc] at h <;> cases h
  case failed =>
    cases e <;> simp only [step, hpc] at h <;> cases h

end moves

/-! ## What holds in every run -/

/-- What the action has read. -/
@[grind =] def Pc.text : Pc → Option Bytes
  | .merging _ text | .calling _ text _ | .saving _ text _ _ | .done text _ => some text
  | _ => none

/-- What the action writes. -/
def Pc.document : Pc → Option Bytes
  | .calling _ _ document | .saving _ _ document _ | .done _ document => some document
  | _ => none

/-- The replacements alone. -/
def Sys.view (s : Sys) : Atomic.Sys Bool := ⟨s.fs, fun p => (s.pcs p).atomic⟩

def Sys.calls (actions : Bool → Action) (s : Sys) (p : Bool) : Atomic.Call :=
  (actions p).call ((s.pcs p).document.getD [])

/-- The document before both actions. -/
def documentOf (original : Atomic.Fs) : Option Bytes := original.read.map (·.bytes)

/-- An action has read the original or the document of the other, which had then read the original. -/
structure Inv (actions : Bool → Action) (original : Atomic.Fs) (s : Sys) : Prop where
  atomic : Atomic.Inv (s.calls actions) original s.view
  merged : ∀ p text document, (s.pcs p).text = some text → (s.pcs p).document = some document →
    (actions p).update text = .ok document
  text : ∀ p text, (s.pcs p).text = some text → documentOf original = some text ∨
    (s.pcs (!p)).atomic.failed = true ∨
    (s.pcs (!p)).document = some text ∧ ∃ first, documentOf original = some first ∧ (s.pcs (!p)).text = some first

namespace Move

variable {s : Sys} {p : Bool} {e : Event} {pc pc' : Pc} {fs' : Atomic.Fs} {lock' : Option Bool}

/-- An action forgets nothing until it fails. -/
theorem keeps (h : Move actions s p e pc pc' fs' lock') : pc' = .failed ∨
    (∀ text, pc.text = some text → pc'.text = some text) ∧
      ∀ document, pc.document = some document → pc'.document = some document := by
  cases h with
  | fail h => exact .inl rfl
  | _ => simp [Pc.text, Pc.document]

theorem text_cases (h : Move actions s p e pc pc' fs' lock') {text : Bytes} (ht : pc'.text = some text) :
    pc.text = some text ∨ ∃ locked file, pc = .reading locked ∧ s.fs.read = some file ∧ text = file.bytes := by
  cases h with
  | read locked file h => exact .inr ⟨locked, file, rfl, h, (Option.some.inj ht).symm⟩
  | fail h => cases ht
  | _ => exact .inl ht

/-- The replacement makes a step of its own, or none. -/
theorem atomic_cases (h : Move actions s p e pc pc' fs' lock') : fs' = s.fs ∧ pc'.atomic = pc.atomic ∨
    Atomic.Effect ((actions p).call (pc.document.getD [])) s.fs pc.atomic fs' pc'.atomic := by
  cases h with
  | save locked text document h => exact .inr h
  | fail h =>
    rcases h with h | h
    · rw [h]
      exact .inr (.refuse (.inl rfl))
    · exact .inl ⟨rfl, h.symm⟩
  | _ => exact .inl ⟨rfl, rfl⟩

theorem document_cases (h : Move actions s p e pc pc' fs' lock') :
    pc'.document = pc.document ∨ pc'.atomic = .opening ∨ pc'.atomic.failed = true := by
  cases h with
  | fail h => exact .inr (.inr rfl)
  | save | report => exact .inl rfl
  | _ => exact .inr (.inl rfl)

theorem merged (h : Move actions s p e pc pc' fs' lock') {text document : Bytes}
    (hpc : pc.text = some text → pc.document = some document → (actions p).update text = .ok document)
    (htext : pc'.text = some text) (hdocument : pc'.document = some document) :
    (actions p).update text = .ok document := by
  cases h with
  | merge locked t d h =>
    cases htext
    cases hdocument
    exact h
  | call | save | report => exact hpc htext hdocument
  | _ => cases hdocument

theorem failed (h : Move actions s p e pc pc' fs' lock') (hf : pc.atomic.failed = true) : pc'.atomic.failed = true := by
  cases h with
  | save locked text document h => exact h.failed hf
  | fail h => rfl
  | _ => cases hf

end Move

section invariant

variable {original : Atomic.Fs} {s s' : Sys} {event : Bool × Event}

theorem eq_not_of_ne {p q : Bool} (h : q ≠ p) : q = !p := by
  cases p <;> cases q <;> simp_all

theorem atomic_step (h : Atomic.Inv (s.calls actions) original s.view) (hs : step actions s event = some s') :
    Atomic.Inv (s'.calls actions) original s'.view := by
  obtain ⟨p, e⟩ := event
  obtain ⟨hmove, hother⟩ := step_move hs
  dsimp only at hmove hother
  have hothers : ∀ q ≠ p, s'.view.pcs q = s.view.pcs q := by
    intro q hq
    rw [eq_not_of_ne hq]
    exact congrArg Pc.atomic hother
  have hcalls : ∀ q ≠ p, s'.calls actions q = s.calls actions q := by
    intro q hq
    obtain rfl := eq_not_of_ne hq
    rw [Sys.calls, Sys.calls, hother]
  -- The replacements see a step of this action, or nothing.
  have hview : Atomic.Inv (s.calls actions) original s'.view := by
    rcases hmove.atomic_cases with ⟨hfs, hpc⟩ | heff
    · have hsame : s'.view = s.view := by
        rw [Sys.view, Sys.view, hfs]
        congr 1
        funext q
        by_cases hq : q = p
        · rw [hq]
          exact hpc
        · exact hothers q hq
      rwa [hsame]
    · exact h.effect (p := p) heff hothers
  refine hview.congr_calls fun q => ?_
  by_cases hq : q = p
  · subst hq
    refine hmove.document_cases.imp_left fun hdocument => ?_
    rw [Sys.calls, Sys.calls, hdocument]
  · exact .inl (hcalls q hq)

theorem Pc.text_of_document {pc : Pc} {document : Bytes} (h : pc.document = some document) :
    ∃ text, pc.text = some text := by
  cases pc <;> simp [Pc.document, Pc.text] at h ⊢

/-- An action that has renamed has its text and its document, and neither a file nor an error. -/
theorem Pc.of_renamed {pc : Pc} (h : pc.atomic.renamed = true) : ∃ text document, pc.text = some text ∧
    pc.document = some document ∧ pc.atomic.file = none ∧ pc.atomic.failed = false := by
  cases pc with
  | saving locked text document apc =>
    refine ⟨text, document, rfl, rfl, ?_⟩
    revert h
    cases apc with
    | returned ok => cases ok <;> simp [Pc.atomic, Atomic.Pc.renamed, Atomic.Pc.file, Atomic.Pc.failed]
    | _ => simp [Pc.atomic, Atomic.Pc.renamed, Atomic.Pc.file, Atomic.Pc.failed]
  | done text document => exact ⟨text, document, rfl, rfl, rfl, rfl⟩
  | _ => cases h

/-- Nobody but the other action can have replaced the file that an action reads. -/
theorem Inv.read_cases (h : Inv actions original s) {p : Bool} {locked : Bool} {file : Atomic.File}
    (hpc : s.pcs p = .reading locked) (hread : s.fs.read = some file) :
    documentOf original = some file.bytes ∧ (s.pcs (!p)).atomic.renamed = false ∨ (s.pcs (!p)).atomic.failed = true ∨
      (s.pcs (!p)).document = some file.bytes := by
  have hopening : s.view.pcs p = .opening := by simp [Sys.view, hpc, Pc.atomic]
  have hother : ∀ q, s.view.pcs q ≠ .opening → q = !p := fun q hq => eq_not_of_ne fun heq => hq (heq ▸ hopening)
  have hcreated : ∀ f, s.fs.dest = some f → original.next ≤ f → f < s.fs.next → (s.pcs (!p)).atomic.renamed = true →
      (s.pcs (!p)).document = some file.bytes := by
    intro f hf hle hlt hrenamed
    have hfile : s.fs.files f = file := by
      have hmap : s.fs.read = some (s.fs.files f) := by rw [Atomic.Fs.read, hf]; rfl
      exact Option.some.inj (hmap.symm.trans hread)
    -- The file is the other's, and it is complete.
    obtain ⟨r, hbegun, hr⟩ := h.atomic.created f hle hlt
    obtain rfl := hother r hbegun
    obtain ⟨text, document, -, hdocument, hnofile, hnofail⟩ := Pc.of_renamed hrenamed
    have hpublished : s.fs.files f = (s.calls actions (!p)).published := by
      simpa [Sys.view, hnofile, hnofail] using hr
    have hbytes : document = file.bytes := by
      rw [← hfile, hpublished, Sys.calls, hdocument]
      rfl
    rw [hdocument, hbytes]
  cases hrenamed : (s.pcs (!p)).atomic.renamed with
  | true =>
    obtain ⟨f, hf, hle, hlt⟩ := h.atomic.renamed (!p) hrenamed
    exact .inr (.inr (hcreated f hf hle hlt hrenamed))
  | false =>
    rcases h.atomic.dest with hdest | ⟨-, q, hq⟩
    · left
      have hsame : s.fs.read = original.read := h.atomic.read_original hdest
      rw [documentOf, ← hsame, hread]
      exact ⟨rfl, rfl⟩
    · right
      have hbegun : s.view.pcs q ≠ .opening := by
        intro heq
        rw [heq] at hq
        simp [Atomic.Pc.renamed, Atomic.Pc.failed] at hq
      obtain rfl := hother q hbegun
      exact .inl (hq.resolve_left (by simp [Sys.view, hrenamed]))

theorem Inv.read (h : Inv actions original s) {p : Bool} {locked : Bool} {file : Atomic.File}
    (hpc : s.pcs p = .reading locked) (hread : s.fs.read = some file) :
    documentOf original = some file.bytes ∨ (s.pcs (!p)).atomic.failed = true ∨
      (s.pcs (!p)).document = some file.bytes ∧
        ∃ first, documentOf original = some first ∧ (s.pcs (!p)).text = some first := by
  rcases h.read_cases hpc hread with ⟨horiginal, -⟩ | hfailed | hdocument
  · exact .inl horiginal
  · exact .inr (.inl hfailed)
  · refine .inr (.inr ⟨hdocument, ?_⟩)
    -- The other had read before this action, which has no document yet.
    obtain ⟨text, htext⟩ := Pc.text_of_document hdocument
    rcases h.text (!p) text htext with horiginal | hfailed | ⟨hnone, -⟩
    · exact ⟨text, horiginal, htext⟩
    · rw [Bool.not_not, hpc] at hfailed
      cases hfailed
    · rw [Bool.not_not, hpc] at hnone
      cases hnone

theorem Inv.init (h : Initial original s) : Inv actions original s := by
  have hview : Atomic.Initial original s.view := ⟨h.fs, fun p => by simp [Sys.view, h.pcs, Pc.atomic], h.dest, h.temp⟩
  refine ⟨.init hview, ?_, ?_⟩
  · intro p text document htext
    rw [h.pcs] at htext
    cases htext
  · intro p text htext
    rw [h.pcs] at htext
    cases htext

theorem Inv.step (h : Inv actions original s) (hs : step actions s event = some s') : Inv actions original s' := by
  have hatomic := atomic_step h.atomic hs
  obtain ⟨p, e⟩ := event
  obtain ⟨hmove, hother⟩ := step_move hs
  dsimp only at hmove hother
  refine ⟨hatomic, ?_, ?_⟩
  · intro q text document htext hdocument
    by_cases hq : q = p
    · subst hq
      exact hmove.merged (h.merged q text document) htext hdocument
    · rw [eq_not_of_ne hq, hother, ← eq_not_of_ne hq] at htext hdocument
      exact h.merged q text document htext hdocument
  · intro q text htext
    by_cases hq : q = p
    · subst hq
      rw [hother]
      rcases hmove.text_cases htext with hold | ⟨locked, file, hpc, hread, rfl⟩
      · exact h.text q text hold
      · exact h.read hpc hread
    · obtain rfl := eq_not_of_ne hq
      rw [hother] at htext
      rw [Bool.not_not]
      have hold := h.text (!p) text htext
      rw [Bool.not_not] at hold
      refine hold.imp_right fun hold => ?_
      rcases hold with hfailed | ⟨hdocument, first, horiginal, hfirst⟩
      · exact .inl (hmove.failed hfailed)
      · rcases hmove.keeps with hfailed | ⟨htext', hdocument'⟩
        · rw [hfailed]
          exact .inl rfl
        · exact .inr ⟨hdocument' _ hdocument, first, horiginal, htext' _ hfirst⟩

theorem reachable_inv {ok : Sys → Bool × Event → Prop} (h : Reachable (SpecWriters.step actions) ok (Initial original) s) :
    Inv actions original s :=
  h.invariant (fun _ hs => .init hs) fun _ _ _ hi _ hs => hi.step hs

/-- Both actions have succeeded. -/
def Sys.AllDone (s : Sys) : Prop := ∀ p, ∃ text document, s.pcs p = .done text document

/-- The file is the document of one of the two, made of the original or of the other's document. -/
theorem Inv.final (h : Inv actions original s) (hdone : s.AllDone) : ∃ p first document,
    documentOf original = some first ∧ s.document = some document ∧ ((actions p).update first = .ok document ∨
      ∃ between, (actions (!p)).update first = .ok between ∧ (actions p).update between = .ok document) := by
  have hreturned : ∀ p, s.view.pcs p = .returned true := by
    intro p
    obtain ⟨text, document, hpc⟩ := hdone p
    simp [Sys.view, hpc, Pc.atomic]
  obtain ⟨p, hp⟩ := h.atomic.returned hreturned
  obtain ⟨text, document, hpc⟩ := hdone p
  obtain ⟨text', document', hpc'⟩ := hdone (!p)
  have hread : s.document = some document := by
    rw [Sys.document, show s.fs.read = _ from hp, Sys.calls, hpc]
    rfl
  have hupdate := h.merged p text document (by rw [hpc]; rfl) (by rw [hpc]; rfl)
  have hupdate' := h.merged (!p) text' document' (by rw [hpc']; rfl) (by rw [hpc']; rfl)
  have htext := h.text p text (by rw [hpc]; rfl)
  rw [hpc'] at htext
  rcases htext with horiginal | hfailed | ⟨hbetween, first, horiginal, hfirst⟩
  · exact ⟨p, text, document, horiginal, hread, .inl hupdate⟩
  · cases hfailed
  · cases hbetween
    cases hfirst
    exact ⟨p, _, document, horiginal, hread, .inr ⟨_, hupdate', hupdate⟩⟩

end invariant

/-! ## Under the lock -/

/-- Between the lock and the return. -/
def Pc.critical : Pc → Bool
  | .opening | .locking | .done _ _ | .failed => false
  | _ => true

/-- `p` comes first: it reads the original, the other reads what `p` has left, and what the other writes stays. -/
structure Ordered (actions : Bool → Action) (original : Atomic.Fs) (s : Sys) (p : Bool) : Prop where
  first : ∀ text, (s.pcs p).text = some text → documentOf original = some text
  second : ∀ text, (s.pcs (!p)).text = some text → ∃ first, s.pcs p = .done first text
  last : (s.pcs (!p)).atomic.renamed = true → s.fs.read = some (s.calls actions (!p)).published

/-- What holds while nobody finds the machine running. -/
structure Serial (actions : Bool → Action) (original : Atomic.Fs) (s : Sys) : Prop where
  lock : ∀ p, (s.pcs p).critical = true → s.lock = some p
  order : (∃ p, (s.pcs p).atomic.failed = true) ∨ ∃ p, Ordered actions original s p

section locked

variable {original : Atomic.Fs} {s s' : Sys} {event : Bool × Event}

/-- An action comes into its critical part with the lock. -/
theorem Move.critical_cases {p : Bool} {e : Event} {pc pc' : Pc} {fs' : Atomic.Fs} {lock' : Option Bool}
    (h : Move actions s p e pc pc' fs' lock') (he : e ≠ .observe true) (hc : pc'.critical = true) :
    lock' = some p ∨ lock' = s.lock ∧ pc.critical = true := by
  cases h with
  | unlocked h => exact absurd h he
  | acquire h => exact .inl rfl
  | wait | report | fail => cases hc
  | _ => exact .inr ⟨rfl, rfl⟩

/-- Nobody takes the lock from the other. -/
theorem Move.lock_other {p : Bool} {e : Event} {pc pc' : Pc} {fs' : Atomic.Fs} {lock' : Option Bool}
    (h : Move actions s p e pc pc' fs' lock') (hlock : s.lock = some (!p)) : lock' = some (!p) := by
  cases h with
  | acquire h =>
    rw [h] at hlock
    cases hlock
  | report | fail => simp [hlock]
  | _ => exact hlock

theorem lock_step (h : ∀ p, (s.pcs p).critical = true → s.lock = some p) (hok : NotRunning s event)
    (hs : step actions s event = some s') : ∀ p, (s'.pcs p).critical = true → s'.lock = some p := by
  obtain ⟨p, e⟩ := event
  obtain ⟨hmove, hother⟩ := step_move hs
  dsimp only at hmove hother
  intro q hq
  by_cases hqp : q = p
  · subst hqp
    rcases hmove.critical_cases hok hq with hlock | ⟨hlock, hold⟩
    · exact hlock
    · rw [hlock]
      exact h q hold
  · obtain rfl := eq_not_of_ne hqp
    rw [hother] at hq
    exact hmove.lock_other (h _ hq)

/-- An action outside its critical part has not read, or it is done, or it has failed. -/
theorem Pc.not_critical {pc : Pc} (h : pc.critical = false) :
    (pc.text = none ∧ pc.atomic.renamed = false) ∨ (∃ text document, pc = .done text document) ∨
      pc.atomic.failed = true := by
  cases pc with
  | opening | locking => exact .inl ⟨rfl, rfl⟩
  | done text document => exact .inr (.inl ⟨text, document, rfl⟩)
  | failed => exact .inr (.inr rfl)
  | _ => cases h

theorem Move.not_done {p : Bool} {e : Event} {pc' : Pc} {fs' : Atomic.Fs} {lock' : Option Bool} {text document : Bytes}
    (h : Move actions s p e (.done text document) pc' fs' lock') : False := by
  cases h with
  | fail h => simp [Pc.atomic] at h

/-- A rename publishes what its own action has written, once the other is done. -/
theorem Inv.rename (h : Inv actions original s) {p : Bool} {own file : Nat} {text document : Bytes}
    (hpc : (s.pcs p).atomic = .publishing own) (hother : s.pcs (!p) = .done text document)
    (htemp : s.fs.temp = some file) : (s.fs.rename file).read = some (s.calls actions p).published := by
  have hwritten := h.atomic.written p
  have hpub : s.view.pcs p = .publishing own := hpc
  rw [hpub] at hwritten
  obtain ⟨-, hwho⟩ := h.atomic.temp file htemp
  have hfile : file = own := by
    rcases hwho with hall | ⟨-, q, hq⟩
    · have hnot := hall p
      rw [hpub] at hnot
      cases hnot
    · by_cases hqp : q = p
      · subst hqp
        rw [hpub] at hq
        simpa [Atomic.Pc.file, Atomic.Pc.failed, eq_comm] using hq
      · rw [eq_not_of_ne hqp] at hq
        simp [Sys.view, hother, Pc.atomic, Atomic.Pc.file, Atomic.Pc.failed] at hq
  subst hfile
  exact congrArg some hwritten

/-- The action that is first goes on. -/
theorem Ordered.step_first (h : Ordered actions original s event.1) (hi : Inv actions original s)
    (hfailed : ∀ p, (s.pcs p).atomic.failed = false) (hs : step actions s event = some s') :
    Ordered actions original s' event.1 := by
  obtain ⟨p, e⟩ := event
  obtain ⟨hmove, hother⟩ := step_move hs
  dsimp only at h hmove hother ⊢
  -- The other has not read: this action is not done.
  have hunread : ∀ text, (s.pcs (!p)).text ≠ some text := by
    intro text htext
    obtain ⟨first, hpc⟩ := h.second text htext
    rw [hpc] at hmove
    exact hmove.not_done
  refine ⟨?_, ?_, ?_⟩
  · intro text htext
    rcases hmove.text_cases htext with hold | ⟨locked, file, hpc, hread, rfl⟩
    · exact h.first text hold
    · rcases hi.read_cases hpc hread with ⟨horiginal, -⟩ | hf | hdocument
      · exact horiginal
      · rw [hfailed] at hf
        cases hf
      · obtain ⟨text, htext⟩ := Pc.text_of_document hdocument
        exact absurd htext (hunread text)
  · intro text htext
    rw [hother] at htext
    exact absurd htext (hunread text)
  · intro hrenamed
    rw [hother] at hrenamed
    obtain ⟨text, -, htext, -⟩ := Pc.of_renamed hrenamed
    exact absurd htext (hunread text)

/-- Only an action that has read comes to rename. -/
theorem Move.unrenamed {p : Bool} {e : Event} {pc pc' : Pc} {fs' : Atomic.Fs} {lock' : Option Bool}
    (h : Move actions s p e pc pc' fs' lock') (hunread : pc.text = none) : pc'.atomic.renamed = false := by
  cases h with
  | save | report => cases hunread
  | _ => rfl

/-- What the second action renames stays, since the first is done. -/
theorem Ordered.step_last {p : Bool} {e : Event} (h : Ordered actions original s (!p)) (hi : Inv actions original s)
    (hs : step actions s (p, e) = some s') (hrenamed : (s'.pcs p).atomic.renamed = true) :
    s'.fs.read = some (s'.calls actions p).published := by
  obtain ⟨hmove, -⟩ := step_move hs
  dsimp only at hmove
  obtain ⟨hfirst, hsecond, hlast⟩ := h
  rw [Bool.not_not] at hsecond hlast
  obtain ⟨text, htext⟩ : ∃ text, (s.pcs p).text = some text := by
    refine Option.ne_none_iff_exists'.mp fun hunread => ?_
    rw [hmove.unrenamed hunread] at hrenamed
    cases hrenamed
  obtain ⟨first, hdone⟩ := hsecond text htext
  have hcalls : s'.calls actions p = s.calls actions p := by
    rcases hmove.document_cases with hdocument | hopening | hf
    · rw [Sys.calls, Sys.calls, hdocument]
    · rw [hopening] at hrenamed
      cases hrenamed
    · obtain ⟨-, -, -, -, -, hnot⟩ := Pc.of_renamed hrenamed
      rw [hf] at hnot
      cases hnot
  rw [hcalls]
  rcases hmove.atomic_cases with ⟨hfs, hpc⟩ | heff
  · rw [hfs]
    exact hlast (hpc ▸ hrenamed)
  · rcases heff.renamed_cases hrenamed with ⟨hold, hfs⟩ | ⟨own, file, hpc, htemp, hfs⟩
    · rw [hfs]
      exact hlast hold
    · rw [hfs]
      exact hi.rename hpc hdone htemp

/-- The other goes on. When it reads, the first is done, or has not begun and is not the first after all. -/
theorem Ordered.step_second (h : Ordered actions original s (!event.1)) (hi : Inv actions original s)
    (hlock : ∀ p, (s.pcs p).critical = true → s.lock = some p) (hfailed : ∀ p, (s.pcs p).atomic.failed = false)
    (hs : step actions s event = some s') : ∃ p, Ordered actions original s' p := by
  obtain ⟨p, e⟩ := event
  obtain ⟨hmove, hother⟩ := step_move hs
  dsimp only at h hmove hother
  have hfirst : ∀ text, (s'.pcs (!p)).text = some text → documentOf original = some text := by
    rw [hother]
    exact h.first
  have hlast : (s'.pcs p).atomic.renamed = true → s'.fs.read = some (s'.calls actions p).published := h.step_last hi hs
  by_cases hnew : ∃ locked file, s.pcs p = .reading locked ∧ s.fs.read = some file
  · obtain ⟨locked, file, hpc, hfile⟩ := hnew
    have hmine : s.lock = some p := hlock p (by rw [hpc]; rfl)
    have hidle : (s.pcs (!p)).critical = false := by
      by_contra hne
      have hother := hlock (!p) (by simpa using hne)
      rw [hmine] at hother
      simp at hother
    have htext : ∀ text, (s'.pcs p).text = some text → text = file.bytes := by
      intro text htext
      rcases hmove.text_cases htext with hold | ⟨_, file', -, hfile', rfl⟩
      · rw [hpc] at hold
        cases hold
      · rw [hfile] at hfile'
        cases hfile'
        rfl
    rcases Pc.not_critical hidle with ⟨hnone, hnot⟩ | ⟨first, document, hdone⟩ | hf
    · refine ⟨p, ?_, ?_, ?_⟩
      · intro text ht
        rw [htext text ht]
        rcases hi.read_cases hpc hfile with ⟨horiginal, -⟩ | hf | hdocument
        · exact horiginal
        · rw [hfailed] at hf
          cases hf
        · obtain ⟨text, hread⟩ := Pc.text_of_document hdocument
          rw [hnone] at hread
          cases hread
      · intro text ht
        rw [hother, hnone] at ht
        cases ht
      · intro hrenamed
        rw [hother, hnot] at hrenamed
        cases hrenamed
    · refine ⟨!p, hfirst, ?_, by rwa [Bool.not_not]⟩
      intro text ht
      rw [Bool.not_not] at ht
      rw [htext text ht, hother]
      rcases hi.read_cases hpc hfile with ⟨-, hnot⟩ | hf | hdocument
      · rw [hdone] at hnot
        cases hnot
      · rw [hfailed] at hf
        cases hf
      · rw [hdone] at hdocument
        cases hdocument
        exact ⟨first, hdone⟩
    · rw [hfailed] at hf
      cases hf
  · refine ⟨!p, hfirst, ?_, by rwa [Bool.not_not]⟩
    intro text ht
    rw [Bool.not_not] at ht
    rw [hother]
    rcases hmove.text_cases ht with hold | ⟨locked, file, hpc, hfile, -⟩
    · exact h.second text (by rwa [Bool.not_not])
    · exact absurd ⟨locked, file, hpc, hfile⟩ hnew

theorem Serial.init (h : Initial original s) : Serial actions original s := by
  refine ⟨fun p hp => ?_, .inr ⟨false, ?_, ?_, ?_⟩⟩
  · rw [h.pcs] at hp
    cases hp
  all_goals simp [h.pcs, Pc.text, Pc.atomic, Atomic.Pc.renamed]

theorem Serial.step (h : Serial actions original s) (hi : Inv actions original s) (hok : NotRunning s event)
    (hs : step actions s event = some s') : Serial actions original s' := by
  refine ⟨lock_step h.lock hok hs, ?_⟩
  by_cases hfailed : ∃ p, (s.pcs p).atomic.failed = true
  · obtain ⟨q, hq⟩ := hfailed
    obtain ⟨hmove, hother⟩ := step_move hs
    refine .inl ⟨q, ?_⟩
    by_cases hqp : q = event.1
    · subst hqp
      exact hmove.failed hq
    · rw [eq_not_of_ne hqp] at hq ⊢
      rwa [hother]
  · obtain ⟨p, hp⟩ := h.order.resolve_left hfailed
    have hnone : ∀ q, (s.pcs q).atomic.failed = false := fun q => by
      simpa using fun hq => hfailed ⟨q, hq⟩
    right
    by_cases hqp : p = event.1
    · subst hqp
      exact ⟨_, hp.step_first hi hnone hs⟩
    · rw [eq_not_of_ne hqp] at hp
      exact hp.step_second hi h.lock hnone hs

theorem reachable_serial (h : Reachable (SpecWriters.step actions) NotRunning (Initial original) s) :
    Serial actions original s := by
  induction h with
  | start hinit => exact .init hinit
  | next event hr hok hs ih => exact ih.step (reachable_inv hr) hok hs

/-- The file is what the second action has made of what the first has made of the original. -/
theorem Serial.final (h : Serial actions original s) (hi : Inv actions original s) (hdone : s.AllDone) :
    ∃ p first between document, documentOf original = some first ∧ s.document = some document ∧
      (actions (!p)).update first = .ok between ∧ (actions p).update between = .ok document := by
  rcases h.order with ⟨p, hp⟩ | ⟨p, hp⟩
  · obtain ⟨text, document, hpc⟩ := hdone p
    rw [hpc] at hp
    cases hp
  · obtain ⟨first, between, hpc⟩ := hdone p
    obtain ⟨text, document, hpc'⟩ := hdone (!p)
    obtain ⟨first', hpc''⟩ := hp.second text (by rw [hpc']; rfl)
    have hbetween : text = between := by
      rw [hpc] at hpc''
      cases hpc''
      rfl
    subst hbetween
    have hread : s.document = some document := by
      rw [Sys.document, hp.last (by rw [hpc']; rfl), Sys.calls, hpc']
      rfl
    refine ⟨!p, first, text, document, hp.first first (by rw [hpc]; rfl), hread, ?_, ?_⟩
    · rw [Bool.not_not]
      exact hi.merged p first text (by rw [hpc]; rfl) (by rw [hpc]; rfl)
    · exact hi.merged (!p) text document (by rw [hpc']; rfl) (by rw [hpc']; rfl)

end locked

/-- **Two updates.** When both have succeeded, the spec is what one of them has made of the original, or of what the other
has made of the original; when neither has found the machine running, it is the second. -/
theorem twoUpdates {original : Atomic.Fs} {s : Sys} (hdone : s.AllDone) :
    (Reachable (step actions) anyStep (Initial original) s → ∃ p first document,
      documentOf original = some first ∧ s.document = some document ∧ ((actions p).update first = .ok document ∨
        ∃ between, (actions (!p)).update first = .ok between ∧ (actions p).update between = .ok document)) ∧
    (Reachable (step actions) NotRunning (Initial original) s → ∃ p first between document,
      documentOf original = some first ∧ s.document = some document ∧
        (actions (!p)).update first = .ok between ∧ (actions p).update between = .ok document) :=
  ⟨fun h => (reachable_inv h).final hdone, fun h => (reachable_serial h).final (reachable_inv h) hdone⟩

/-! ## Two patches -/

/-- The persisted layer of a default machine with these CPUs and this memory. -/
def sampleToml (cpus memory : String) : Bytes := ofLines [
  "clear = [", "    \"arch\",", "    \"network.tap\",", "    \"network.mac\",", "    \"cloud_init.user_data\",",
  "    \"cloud_init.user_data_inline\",", "    \"cloud_init.network_config\",", "    \"cloud_init.password\",",
  "    \"vmm.binary\",", "    \"vmm.config_overlay\",", "    \"cpus_max\",", "    \"memory_max\",", "]", cpus,
  "disk = \"20G\"", "image = \"ubuntu:24.04\"", memory, "mount = []", "user = \"root\"", "",
  "[cloud_init]", "provisioning = true", "ssh_authorized_keys = []", "ssh_keys = []", "ssh_pwauth = false", "",
  "[network]", "forward = []", "mode = \"passt\"", "", "[vmm]", "extra_args = []", "firmware = \"auto\""]

def sampleSpec (cpus : UInt8) (gib : UInt64) : MachineSpec := { cpus := cpus, memory := ⟨gib * ByteSize.gib⟩ }

/-- The four specs that two patches of the default machine can lead to, with their TOML text. -/
def samples : List (MachineSpec × Bytes) :=
  [(sampleSpec 2 2, sampleToml "cpus = 2" "memory = \"2G\""), (sampleSpec 4 2, sampleToml "cpus = 4" "memory = \"2G\""),
    (sampleSpec 2 4, sampleToml "cpus = 2" "memory = \"4G\""), (sampleSpec 4 4, sampleToml "cpus = 4" "memory = \"4G\"")]

def sampleDocument (toml : Bytes) : Bytes := specTemplate ++ 0x0A :: toml

def sampleEnv : SpecEnv where
  fromToml text :=
    match samples.find? fun sample => sampleDocument sample.2 == text with
    | some sample => .ok (.ofSpec sample.1)
    | none => .error (.new .invalidSpec "cannot parse firestone.toml")
  toToml patch :=
    match samples.find? fun sample => MachineSpecPatch.ofSpec sample.1 == patch with
    | some sample => .ok sample.2
    | none => .error (.new .generic "cannot encode TOML document for firestone.toml")
  resolvePaths := .ok
  validate := .ok
  globalDefaults := {}

/-- A patch of the CPUs and a resize of the memory. -/
def sampleActions : Bool → Action
  | false => ⟨.patchSpec { cpus := some 4 }, sampleEnv, 0o022⟩
  | true => ⟨.resize none (some ⟨4 * ByteSize.gib⟩), sampleEnv, 0o022⟩

def sampleFs : Atomic.Fs :=
  ⟨fun _ => ⟨sampleDocument (sampleToml "cpus = 2" "memory = \"2G\""), 0o600⟩, some 0, none, 1⟩

def sampleStart : Sys := ⟨sampleFs, none, fun _ => .opening⟩

theorem sampleStart_initial : Initial sampleFs sampleStart := by
  refine ⟨rfl, fun _ => rfl, rfl, ?_, ?_⟩
  · intro file hfile
    cases hfile
    decide
  · intro file hfile
    cases hfile

def sampleText (cpus memory : String) : Bytes := sampleDocument (sampleToml cpus memory)

/-- An action up to its VMM call. -/
def merges (p running : Bool) : List (Bool × Event) :=
  (if running then [.observe true] else [.observe false, .acquire, .recheck false]).map (p, ·) ++
    [(p, .read), (p, .merge), (p, .call)]

/-- The replacement; only the patch sets a mode. -/
def saves (p : Bool) : List (Bool × Event) :=
  List.replicate (if p then 3 else 4) (p, .save (.done 0)) ++ [(p, .save (.done 2280))] ++
    List.replicate 3 (p, .save (.done 0)) ++ [(p, .report)]

/-- Both have succeeded and the spec is this one. -/
def Sys.endsWith (s : Sys) (document : Bytes) : Bool :=
  [false, true].all (fun p => match s.pcs p with | .done _ _ => true | _ => false) && s.document == some document

theorem Sys.endsWith_iff {s : Sys} {document : Bytes} (h : s.endsWith document = true) :
    s.AllDone ∧ s.document = some document := by
  simp only [Sys.endsWith, List.all_cons, List.all_nil, Bool.and_eq_true, beq_iff_eq, and_true] at h
  obtain ⟨⟨hfalse, htrue⟩, hdocument⟩ := h
  refine ⟨fun p => ?_, hdocument⟩
  cases p
  · cases hpc : s.pcs false with
    | done text document => exact ⟨text, document, rfl⟩
    | _ => simp [hpc] at hfalse
  · cases hpc : s.pcs true with
    | done text document => exact ⟨text, document, rfl⟩
    | _ => simp [hpc] at htrue

theorem notRunning_of_check (s : Sys) (event : Bool × Event) (h : (event.2 != .observe true) = true) :
    NotRunning s event := by
  simpa [NotRunning] using h

/-- Runs of the two actions on a stopped and on a running machine, and the actions one after the other. They are evaluated
together, since most of the work is in the text that they share. -/
theorem sample_outcomes :
    ((run (step sampleActions) sampleStart (merges false false ++ saves false ++ merges true false ++ saves true)).any
      (·.endsWith (sampleText "cpus = 4" "memory = \"4G\""))) = true ∧
    ((run (step sampleActions) sampleStart (merges false true ++ merges true true ++ saves false ++ saves true)).any
      (·.endsWith (sampleText "cpus = 2" "memory = \"4G\""))) = true ∧
    (∀ p, ((sampleActions (!p)).update (sampleText "cpus = 2" "memory = \"2G\"")).bind
      (sampleActions p).update = .ok (sampleText "cpus = 4" "memory = \"4G\"")) ∧
    sampleText "cpus = 2" "memory = \"4G\"" ≠ sampleText "cpus = 4" "memory = \"4G\"" := by
  decide +kernel

/-- A patch and a resize of a stopped machine, one after the other. -/
theorem twoUpdates_stopped : ∃ s, Reachable (step sampleActions) NotRunning (Initial sampleFs) s ∧ s.AllDone ∧
    ∃ p first between document, documentOf sampleFs = some first ∧ s.document = some document ∧
      (sampleActions (!p)).update first = .ok between ∧ (sampleActions p).update between = .ok document := by
  obtain ⟨s, hs, hends⟩ := (Option.any_eq_true _ _).mp sample_outcomes.1
  obtain ⟨hdone, -⟩ := Sys.endsWith_iff hends
  have hmeet : StepsMeet (step sampleActions) NotRunning sampleStart
      (merges false false ++ saves false ++ merges true false ++ saves true) :=
    .of_all notRunning_of_check (by decide)
  have hr := (Reachable.start sampleStart_initial).run hmeet hs
  exact ⟨s, hr, hdone, (twoUpdates hdone).2 hr⟩

/-- A patch and a resize of a running machine both read the original: the resize undoes the patch. -/
theorem lostUpdate : ¬ ∀ s, Reachable (step sampleActions) anyStep (Initial sampleFs) s → s.AllDone →
    ∃ p first between document, documentOf sampleFs = some first ∧ s.document = some document ∧
      (sampleActions (!p)).update first = .ok between ∧ (sampleActions p).update between = .ok document := by
  intro h
  obtain ⟨-, hrun, hserials, hne⟩ := sample_outcomes
  obtain ⟨s, hs, hends⟩ := (Option.any_eq_true _ _).mp hrun
  obtain ⟨hdone, hdocument⟩ := Sys.endsWith_iff hends
  obtain ⟨p, first, between, document, hfirst, hread, hbetween, hlast⟩ := h s (reachable_of_run sampleStart_initial hs) hdone
  obtain rfl : sampleText "cpus = 2" "memory = \"2G\"" = first := Option.some.inj hfirst
  -- whichever of the two comes first, both changes are there
  have hserial := hserials p
  rw [hbetween] at hserial
  have hboth : document = sampleText "cpus = 4" "memory = \"4G\"" := Except.ok.inj (hlast.symm.trans hserial)
  rw [hdocument, hboth] at hread
  exact hne (Option.some.inj hread)

end Firestone.Machine.SpecWriters
