import Firestone.Spec.Validation

/-!
# The real host

`RealValidationHost` answers validation from the file system. `System` has the calls that it makes, as a snapshot.

* `realValidationHost` — the host, from the calls.
* `readBounded` — a read that stops one byte beyond its limit.
* `System.Lawful` — what the documentation of the calls says of canonical paths.
* `realValidationHost_lawful` — a canonical path stands for the path that it came from.
-/

namespace Firestone.Validation

open Firestone.Lib

/-! ## The calls -/

structure Metadata where
  isFile : Bool
  isSymlink : Bool
  deriving DecidableEq, Repr

/-- A file that was opened. It is inspected and read through its descriptor. -/
structure OpenedFile where
  isFile : Except IoErrorKind Bool
  read : Nat → Except IoErrorKind Bytes

/-- What `access` fails with. -/
inductive AccessError
  | denied | other (kind : IoErrorKind)
  deriving DecidableEq, Repr

structure System where
  architecture : String
  availableParallelism : Option Nat
  metadata : OsString → Except IoErrorKind Metadata
  symlinkMetadata : OsString → Except IoErrorKind Metadata
  canonicalize : OsString → Except IoErrorKind OsString
  accessExecutable : OsString → Except AccessError Unit
  openFile : OsString → Except IoErrorKind OpenedFile
  readToString : OsString → Except IoErrorKind String
  openTun : Except IoErrorKind Unit

/-! ## Bounded reads -/

inductive BoundedReadError
  | io (kind : IoErrorKind) | limitExceeded
  deriving DecidableEq, Repr

/-- `bounded::read_to_end`. -/
def readBounded (file : OpenedFile) (limit : Nat) : Except BoundedReadError Bytes :=
  match file.read (limit + 1) with
  | .error kind => .error (.io kind)
  | .ok contents => if limit < contents.length then .error .limitExceeded else .ok contents

theorem readBounded_ok {file : OpenedFile} {limit : Nat} {contents : Bytes} (h : readBounded file limit = .ok contents) :
    contents.length ≤ limit := by
  unfold readBounded at h
  split at h
  · cases h
  · split_ifs at h with hlong
    cases h
    exact Nat.le_of_not_lt hlong

/-! ## The host -/

section Host

variable (system : System)

def hostArchitecture : Res Arch :=
  match Arch.current system.architecture with
  | .ok arch => .ok arch
  | .error message => .error <| (FirestoneError.new .dependency message).withHint
      "run Firestone on an x86_64 or aarch64 Linux host"

def pathExists (path : OsString) : Except IoErrorKind Bool :=
  match system.metadata path with
  | .ok _ => .ok true
  | .error .notFound => .ok false
  | .error kind => .error kind

def pathIsReadable (path : OsString) : Except IoErrorKind Bool :=
  match system.openFile path with
  | .ok _ => .ok true
  | .error .permissionDenied => .ok false
  | .error kind => .error kind

def pathIsFile (path : OsString) : Except IoErrorKind Bool := (system.metadata path).map Metadata.isFile

def canonicalizeRegularNofollow (path : OsString) : Except IoErrorKind OsString :=
  match system.symlinkMetadata path with
  | .error kind => .error kind
  | .ok metadata => if !metadata.isFile || metadata.isSymlink then .error .invalidInput else system.canonicalize path

def pathIsExecutable (path : OsString) : Except IoErrorKind Bool :=
  match system.accessExecutable path with
  | .ok () => .ok true
  | .error .denied => .ok false
  | .error (.other kind) => .error kind

def readRegularFile (path : OsString) (limit : Nat) : Except IoErrorKind Bytes :=
  match system.openFile path with
  | .error kind => .error kind
  | .ok file =>
    match file.isFile with
    | .error kind => .error kind
    | .ok false => .error .invalidInput
    | .ok true =>
      match readBounded file limit with
      | .ok contents => .ok contents
      | .error (.io kind) => .error kind
      | .error .limitExceeded => .error .invalidData

/-- The flag `IFF_TAP` of the device. -/
def tapDeviceIsTap (tap : String) : Except IoErrorKind Bool :=
  let directory := joinPath (.ofString "/sys/class/net") (.ofString tap)
  match system.readToString (joinPath directory (.ofString "tun_flags")) with
  | .error .notFound => .ok false
  | .error kind => .error kind
  | .ok text =>
    let flags := match stripPrefix "0x" (trim text) with
      | some digits => fromStrRadix 16 (2 ^ 32) digits.toList
      | none => fromStrRadix 10 (2 ^ 32) (trim text).toList
    match flags with
    | some flags => .ok (flags &&& 2 ≠ 0)
    | none => .error .invalidData

def realValidationHost : ValidationHost where
  architecture := hostArchitecture system
  cpuCount := system.availableParallelism.getD 1
  pathExists := pathExists system
  pathIsReadable := pathIsReadable system
  pathIsFile := pathIsFile system
  canonicalizeRegularNofollow := canonicalizeRegularNofollow system
  pathIsExecutable := pathIsExecutable system
  readRegularFile := readRegularFile system
  tapDeviceIsTap := tapDeviceIsTap system
  tunIsAccessible := system.openTun

end Host

/-! ## Canonical paths -/

/-- A canonical path of a file is absolute, is its own canonical form, and answers like the path. -/
def ValidationHost.Lawful (host : ValidationHost) : Prop :=
  ∀ path canonical, host.canonicalizeRegularNofollow path = .ok canonical →
    isAbsolute canonical = true ∧ host.canonicalizeRegularNofollow canonical = .ok canonical ∧
      host.pathExists canonical = .ok true ∧ host.pathIsFile canonical = .ok true ∧
      host.pathIsReadable canonical = host.pathIsReadable path

/-- What is no symbolic link is inspected as what it is. A canonical path is absolute, has no symbolic link in it, and names
the file that the path names. -/
structure System.Lawful (system : System) : Prop where
  direct : ∀ path metadata, system.symlinkMetadata path = .ok metadata → metadata.isSymlink = false →
    system.metadata path = .ok metadata
  absolute : ∀ path canonical, system.canonicalize path = .ok canonical → isAbsolute canonical = true
  canonical : ∀ path canonical, system.canonicalize path = .ok canonical → system.canonicalize canonical = .ok canonical
  metadata : ∀ path canonical, system.canonicalize path = .ok canonical → system.metadata canonical = system.metadata path
  symlinkMetadata : ∀ path canonical, system.canonicalize path = .ok canonical →
    system.symlinkMetadata canonical = system.metadata path
  openFile : ∀ path canonical, system.canonicalize path = .ok canonical → system.openFile canonical = system.openFile path

theorem realValidationHost_lawful {system : System} (h : system.Lawful) : (realValidationHost system).Lawful := by
  intro path canonical hcanonical
  change canonicalizeRegularNofollow system path = .ok canonical at hcanonical
  unfold canonicalizeRegularNofollow at hcanonical
  split at hcanonical
  · cases hcanonical
  · rename_i metadata hmetadata
    split_ifs at hcanonical with hregular
    simp only [Bool.or_eq_true, Bool.not_eq_true', not_or, Bool.not_eq_true, Bool.not_eq_false] at hregular
    obtain ⟨hfile, hsymlink⟩ := hregular
    have hpath : system.metadata path = .ok metadata := h.direct path metadata hmetadata hsymlink
    have hsame : system.metadata canonical = .ok metadata := (h.metadata path canonical hcanonical).trans hpath
    refine ⟨h.absolute path canonical hcanonical, ?_, ?_, ?_, ?_⟩
    · change canonicalizeRegularNofollow system canonical = .ok canonical
      rw [canonicalizeRegularNofollow, (h.symlinkMetadata path canonical hcanonical).trans hpath]
      simp only [hfile, hsymlink, Bool.not_true, Bool.or_self, Bool.false_eq_true, if_false]
      exact h.canonical path canonical hcanonical
    · change pathExists system canonical = .ok true
      rw [pathExists, hsame]
    · change pathIsFile system canonical = .ok true
      rw [pathIsFile, hsame, ← hfile]
      rfl
    · change pathIsReadable system canonical = pathIsReadable system path
      rw [pathIsReadable, pathIsReadable, h.openFile path canonical hcanonical]

/-! ## A file system without links -/

/-- A host with the given files, which are regular and have canonical paths. -/
def flatSystem (files : List (OsString × Bytes)) : System where
  architecture := "x86_64"
  availableParallelism := some 4
  metadata path := if (files.lookup path).isSome then .ok ⟨true, false⟩ else .error .notFound
  symlinkMetadata path := if (files.lookup path).isSome then .ok ⟨true, false⟩ else .error .notFound
  canonicalize path := if (files.lookup path).isSome ∧ isAbsolute path = true then .ok path else .error .notFound
  accessExecutable _ := .error .denied
  openFile path :=
    match files.lookup path with
    | some contents => .ok ⟨.ok true, fun n => .ok (contents.take n)⟩
    | none => .error .notFound
  readToString _ := .error .notFound
  openTun := .error .permissionDenied

theorem flatSystem_lawful (files : List (OsString × Bytes)) : (flatSystem files).Lawful := by
  have hsame : ∀ path canonical, (flatSystem files).canonicalize path = .ok canonical →
      canonical = path ∧ isAbsolute path = true := by
    intro path canonical h
    change (if _ then _ else _) = _ at h
    split_ifs at h with hfile
    cases h
    exact ⟨rfl, hfile.2⟩
  refine ⟨fun path metadata h _ => h, ?_, ?_, ?_, ?_, ?_⟩
  · intro path canonical h
    obtain ⟨rfl, habsolute⟩ := hsame path canonical h
    exact habsolute
  all_goals
    intro path canonical h
    obtain ⟨rfl, -⟩ := hsame path canonical h
  · exact h
  all_goals rfl

/-- A file that is small enough is read whole. -/
theorem flatSystem_readRegularFile {files : List (OsString × Bytes)} {path : OsString} {contents : Bytes} {limit : Nat}
    (hfile : files.lookup path = some contents) (hlength : contents.length ≤ limit) :
    readRegularFile (flatSystem files) path limit = .ok contents := by
  have hopen : (flatSystem files).openFile path = .ok ⟨.ok true, fun n => .ok (contents.take n)⟩ := by
    change (match files.lookup path with | some _ => _ | none => _) = _
    rw [hfile]
  rw [readRegularFile, hopen]
  simp only [readBounded]
  rw [List.take_of_length_le (by omega), if_neg (by omega)]

end Firestone.Validation
