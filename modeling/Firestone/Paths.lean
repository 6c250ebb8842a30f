import Firestone.Error
import Firestone.Lib.Text
import Firestone.Lib.Tree

/-!
# Where machines are stored

A machine has a directory below the machines directory and one below the runtime directory. Its removal moves the first
to a tombstone beside it. The server keeps a socket and a lock in the runtime directory.

* `checkedJoin` — the one check a machine name goes through.
* `Disjoint` — what is stored for one machine is apart from what is stored for another, and from the server.
* `Separate` — when that is so.
* `disjoint_iff_separate` — and then removing one machine leaves the other alone.
-/

namespace Firestone

open Firestone.Lib

/-- A path as the list of its components. -/
abbrev PathBuf := List String

/-! ## Components -/

inductive Component
  | rootDir | curDir | parentDir | normal (name : String)
  deriving DecidableEq, Repr

/-- What stands between two separators; an empty piece and `.` are no component. -/
def pieceComponent (piece : List Char) : Option Component :=
  if piece = [] ∨ piece = ['.'] then none
  else if piece = ['.', '.'] then some .parentDir
  else some (.normal (String.ofList piece))

/-- `Path::components`: only a `.` at the very front is kept. -/
def components (path : String) : List Component :=
  match path.toList.splitOn '/' with
  | [] => []
  | first :: rest =>
    if first = [] ∧ rest ≠ [] then .rootDir :: rest.filterMap pieceComponent
    else if first = ['.'] then .curDir :: rest.filterMap pieceComponent
    else (first :: rest).filterMap pieceComponent

/-- The quoted form of a text in a message. -/
def debugQuote (value : String) : String :=
  let escape (c : Char) : String :=
    match c with
    | '"' => "\\\"" | '\\' => "\\\\" | '\n' => "\\n" | '\r' => "\\r" | '\t' => "\\t"
    | c => if c.toNat = 0 then "\\0"
      else if isControl c then "\\u\x7b" ++ String.ofList (Nat.toDigits 16 c.toNat) ++ "\x7d"
      else String.singleton c
  "\"" ++ String.join (value.toList.map escape) ++ "\""

/-- The value is one component and nothing else. -/
def oneComponent (value : String) : Bool :=
  (match components value with | [.normal _] => true | _ => false) && !value.toList.contains '/' &&
    !value.toList.any isControl

def checkedJoin (base : PathBuf) (label value : String) : Res PathBuf :=
  if oneComponent value then .ok (base ++ [value])
  else .error ((FirestoneError.new .invalidSpec
    (label ++ " must be one non-empty path component: " ++ debugQuote value)).withHint
    "remove path separators, '.' components, and control characters")

/-! ## Locations -/

/-- The two base directories that machines use. Both can be set by the environment, to any path. -/
structure Paths where
  dataDir : PathBuf
  runtimeDir : PathBuf
  deriving DecidableEq, Repr

namespace Paths

/-- What `FIRESTONE_HOME` selects. -/
def ofHome (home : PathBuf) : Paths := ⟨home ++ ["data"], home ++ ["run"]⟩

variable (paths : Paths)

def machinesDir : PathBuf := paths.dataDir ++ ["machines"]
def serveSocket : PathBuf := paths.runtimeDir ++ ["serve.sock"]
def serveLock : PathBuf := paths.runtimeDir ++ [".serve.lock"]

def machineDir (name : String) : Res PathBuf := checkedJoin paths.machinesDir "machine name" name

def removalName (name : String) : String := ".removing-" ++ name

def machineRemovalDir (name : String) : Res PathBuf :=
  checkedJoin paths.machinesDir "machine removal name" (removalName name)

def machineRuntimeDir (name : String) : Res PathBuf := checkedJoin paths.runtimeDir "machine name" name

end Paths

/-! ## What the check accepts -/

theorem components_of_no_separator {value : String} (h : '/' ∉ value.toList) :
    components value = if value.toList = ['.'] then [.curDir] else (pieceComponent value.toList).toList := by
  have hpieces : value.toList.splitOn '/' = [value.toList] := List.splitOn_eq_singleton h
  rw [components, hpieces]
  by_cases hdot : value.toList = ['.']
  · simp [hdot]
  · cases hpiece : pieceComponent value.toList <;> simp [hdot, hpiece]

theorem oneComponent_iff {value : String} : oneComponent value = true ↔
    value.toList ≠ [] ∧ value.toList ≠ ['.'] ∧ value.toList ≠ ['.', '.'] ∧ '/' ∉ value.toList ∧
      ∀ c ∈ value.toList, isControl c = false := by
  by_cases hsep : '/' ∈ value.toList
  · simp [oneComponent, hsep]
  · rw [oneComponent, components_of_no_separator hsep]
    by_cases hdot : value.toList = ['.']
    · simp [hdot]
    · by_cases hempty : value.toList = []
      · simp [hempty, pieceComponent]
      · by_cases hparent : value.toList = ['.', '.']
        · simp [hparent, pieceComponent]
        · simp [pieceComponent, hdot, hempty, hparent, hsep]

theorem checkedJoin_eq_ok {base p : PathBuf} {label value : String} (h : checkedJoin base label value = .ok p) :
    oneComponent value = true ∧ p = base ++ [value] := by
  unfold checkedJoin at h
  split at h
  · rename_i hvalue
    cases h
    exact ⟨hvalue, rfl⟩
  · cases h

/-- The name of a tombstone passes the check when the name of the machine does. -/
theorem oneComponent_removalName {name : String} (h : oneComponent name = true) :
    oneComponent (Paths.removalName name) = true := by
  obtain ⟨-, -, -, hsep, hcontrol⟩ := oneComponent_iff.mp h
  have htext : (Paths.removalName name).toList = ".removing-".toList ++ name.toList := String.toList_append
  have hplain : ".removing-".toList.any isControl = false := by decide
  refine oneComponent_iff.mpr ⟨?_, ?_, ?_, ?_, ?_⟩
  · simp [htext]
  · simp [htext]
  · simp [htext]
  · simp [htext, hsep]
  · intro c hc
    rw [htext, List.mem_append] at hc
    rcases hc with hc | hc
    · exact (Bool.not_eq_true _).mp (List.any_eq_false.mp hplain c hc)
    · exact hcontrol c hc

/-! ## Storage of two machines -/

namespace Paths

variable (paths : Paths)

/-- The directories that operations on a machine create, move and remove. -/
def artefactRoots (name : String) : Res (List PathBuf) := do
  let machine ← paths.machineDir name
  let removal ← paths.machineRemovalDir name
  let runtime ← paths.machineRuntimeDir name
  return [machine, removal, runtime]

/-- Paths at or below them. -/
def Artefact (name : String) (p : PathBuf) : Prop :=
  ∃ roots, paths.artefactRoots name = .ok roots ∧ ∃ root ∈ roots, root <+: p

/-- The directories that hold the data of a machine. -/
def IsHome (name : String) (dir : PathBuf) : Prop :=
  paths.machineDir name = .ok dir ∨ paths.machineRuntimeDir name = .ok dir

structure Disjoint (m n : String) : Prop where
  artefacts : ∀ p, paths.Artefact n p → ∀ dir, paths.IsHome m dir → ¬ Comparable p dir
  server : ∀ name ∈ [m, n], ∀ dir, paths.machineRuntimeDir name = .ok dir → dir ≠ paths.serveSocket ∧ dir ≠ paths.serveLock

/-- One name is not the tombstone of the other, neither is a name of the server, and neither base directory lies inside a
directory of the two machines. -/
structure Separate (m n : String) : Prop where
  tombstone : m ≠ removalName n
  server : ∀ name ∈ [m, n], name ≠ "serve.sock" ∧ name ≠ ".serve.lock"
  runtime : ∀ name ∈ [m, n, removalName n], ¬ paths.machinesDir ++ [name] <+: paths.runtimeDir
  machines : ∀ name ∈ [m, n], ¬ paths.runtimeDir ++ [name] <+: paths.machinesDir

instance (m n : String) : Decidable (paths.Separate m n) :=
  decidable_of_iff (m ≠ removalName n ∧ (∀ name ∈ [m, n], name ≠ "serve.sock" ∧ name ≠ ".serve.lock") ∧
    (∀ name ∈ [m, n, removalName n], ¬ paths.machinesDir ++ [name] <+: paths.runtimeDir) ∧
    ∀ name ∈ [m, n], ¬ paths.runtimeDir ++ [name] <+: paths.machinesDir)
    ⟨fun h => ⟨h.1, h.2.1, h.2.2.1, h.2.2.2⟩, fun h => ⟨h.1, h.2, h.3, h.4⟩⟩

/-- What belongs to a machine or to the server. -/
def Protected (name : String) (q : PathBuf) : Prop :=
  (∃ dir, paths.IsHome name dir ∧ dir <+: q) ∨ q = paths.serveSocket ∨ q = paths.serveLock

/-- The file-system steps of `remove_one`, with the entries found in the runtime directory. -/
def removeOne {α : Type} (name : String) (entries : List String) : Res (List (TreeOp String α)) := do
  let machine ← paths.machineDir name
  let runtime ← paths.machineRuntimeDir name
  let tombstone ← paths.machineRemovalDir name
  return (entries.map fun entry => .unlink (runtime ++ [entry])) ++
    [.unlink runtime, .removeAll tombstone, .move machine tombstone, .removeAll tombstone]

variable {paths} {m n : String}

theorem oneComponent_of_machineDir {dir : PathBuf} (h : paths.machineDir n = .ok dir) : oneComponent n = true :=
  (checkedJoin_eq_ok h).1

theorem checkedJoin_ok {base : PathBuf} {label value : String} (h : oneComponent value = true) :
    checkedJoin base label value = .ok (base ++ [value]) := if_pos h

theorem artefactRoots_eq (h : oneComponent n = true) : paths.artefactRoots n =
    .ok [paths.machinesDir ++ [n], paths.machinesDir ++ [removalName n], paths.runtimeDir ++ [n]] := by
  rw [artefactRoots, machineDir, machineRemovalDir, machineRuntimeDir, checkedJoin_ok h, checkedJoin_ok h,
    checkedJoin_ok (oneComponent_removalName h)]
  rfl

theorem isHome_iff (h : oneComponent m = true) {dir : PathBuf} :
    paths.IsHome m dir ↔ dir = paths.machinesDir ++ [m] ∨ dir = paths.runtimeDir ++ [m] := by
  rw [IsHome, machineDir, machineRuntimeDir, checkedJoin_ok h, checkedJoin_ok h]
  simp [eq_comm]

/-- An artefact is comparable with a directory exactly when one of the roots is. -/
theorem artefact_comparable (h : oneComponent n = true) {dir : PathBuf} :
    (∃ p, paths.Artefact n p ∧ Comparable p dir) ↔
      ∃ root ∈ [paths.machinesDir ++ [n], paths.machinesDir ++ [removalName n], paths.runtimeDir ++ [n]],
        Comparable root dir := by
  constructor
  · rintro ⟨p, ⟨roots, hroots, root, hroot, rest, rfl⟩, hp⟩
    rw [artefactRoots_eq h] at hroots
    cases hroots
    exact ⟨root, hroot, hp.of_append⟩
  · rintro ⟨root, hroot, hp⟩
    exact ⟨root, ⟨_, artefactRoots_eq h, root, hroot, List.prefix_refl root⟩, hp⟩

theorem server_iff (hm : oneComponent m = true) (hn : oneComponent n = true) :
    (∀ name ∈ [m, n], ∀ dir, paths.machineRuntimeDir name = .ok dir → dir ≠ paths.serveSocket ∧ dir ≠ paths.serveLock) ↔
      ∀ name ∈ [m, n], name ≠ "serve.sock" ∧ name ≠ ".serve.lock" := by
  refine forall₂_congr fun name hname => ?_
  have hone : oneComponent name = true := by
    rcases List.mem_pair.mp hname with rfl | rfl
    · exact hm
    · exact hn
  rw [machineRuntimeDir, checkedJoin_ok hone]
  simp [serveSocket, serveLock]

/-- The roots of `n` meet the directories of `m` only through the names or through the layout. -/
theorem artefacts_iff (hm : oneComponent m = true) (hn : oneComponent n = true) (hne : m ≠ n) :
    (∀ p, paths.Artefact n p → ∀ dir, paths.IsHome m dir → ¬ Comparable p dir) ↔
      m ≠ removalName n ∧
      (∀ name ∈ [m, n, removalName n], ¬ paths.machinesDir ++ [name] <+: paths.runtimeDir) ∧
      ∀ name ∈ [m, n], ¬ paths.runtimeDir ++ [name] <+: paths.machinesDir := by
  have hroots : (∀ p, paths.Artefact n p → ∀ dir, paths.IsHome m dir → ¬ Comparable p dir) ↔
      ∀ dir, paths.IsHome m dir → ¬ ∃ p, paths.Artefact n p ∧ Comparable p dir :=
    ⟨fun h dir hdir ⟨p, hp, hc⟩ => h p hp dir hdir hc, fun h p hp dir hdir hc => h dir hdir ⟨p, hp, hc⟩⟩
  rw [hroots]
  simp only [artefact_comparable hn, isHome_iff hm, List.mem_cons, List.not_mem_nil, or_false, exists_eq_or_imp,
    exists_eq_left, forall_eq_or_imp, forall_eq, entry_comparable, entry_not_isPrefix, Ne.symm hne, and_false, false_or,
    true_and, eq_comm (a := removalName n)]
  tauto

theorem disjoint_iff (hm : oneComponent m = true) (hn : oneComponent n = true) (hne : m ≠ n) :
    paths.Disjoint m n ↔ paths.Separate m n := by
  constructor
  · intro h
    obtain ⟨htombstone, hruntime, hmachines⟩ := (artefacts_iff hm hn hne).mp h.artefacts
    exact ⟨htombstone, (server_iff hm hn).mp h.server, hruntime, hmachines⟩
  · intro h
    exact ⟨(artefacts_iff hm hn hne).mpr ⟨h.tombstone, h.runtime, h.machines⟩, (server_iff hm hn).mpr h.server⟩

/-- Below one home, only the names matter. -/
theorem separate_ofHome {home : PathBuf} : (ofHome home).Separate m n ↔
    m ≠ removalName n ∧ ∀ name ∈ [m, n], name ≠ "serve.sock" ∧ name ≠ ".serve.lock" := by
  have hruntime : ∀ name, ¬ (ofHome home).machinesDir ++ [name] <+: (ofHome home).runtimeDir := by
    intro name hp
    simp [ofHome, machinesDir, List.prefix_append_right_inj] at hp
  have hmachines : ∀ name, ¬ (ofHome home).runtimeDir ++ [name] <+: (ofHome home).machinesDir := by
    intro name hp
    simp [ofHome, machinesDir, List.prefix_append_right_inj] at hp
  exact ⟨fun h => ⟨h.tombstone, h.server⟩, fun h => ⟨h.1, h.2, fun name _ => hruntime name, fun name _ => hmachines name⟩⟩

/-- No directory of `n` is at or above a path of the server. -/
theorem Separate.server_apart (h : paths.Separate m n) {file : String} (hfile : file = "serve.sock" ∨ file = ".serve.lock")
    {root : PathBuf}
    (hroot : root ∈ [paths.machinesDir ++ [n], paths.machinesDir ++ [removalName n], paths.runtimeDir ++ [n]]) :
    ¬ root <+: paths.runtimeDir ++ [file] := by
  have hn : n ≠ file := by
    rcases hfile with rfl | rfl
    · exact (h.server n (by simp)).1
    · exact (h.server n (by simp)).2
  have hremoval : removalName n ≠ file := by
    intro heq
    have htext := congrArg (fun s : String => s.toList.take 2) heq
    rcases hfile with rfl | rfl <;> simp [removalName] at htext
  simp only [List.mem_cons, List.not_mem_nil, or_false] at hroot
  rcases hroot with rfl | rfl | rfl
  · rw [entry_isPrefix]
    exact fun hp => hp.elim (fun heq => hn heq.2) (h.runtime n (by simp))
  · rw [entry_isPrefix]
    exact fun hp => hp.elim (fun heq => hremoval heq.2) (h.runtime _ (by simp))
  · rw [entry_isPrefix]
    exact fun hp => hp.elim (fun heq => hn heq.2) (entry_not_isPrefix _ _)

/-- Nothing protected is at or below an artefact of the other machine. -/
theorem Disjoint.not_isPrefix (h : paths.Disjoint m n) (hm : oneComponent m = true) (hn : oneComponent n = true)
    (hne : m ≠ n) {p q : PathBuf} (hp : paths.Artefact n p) (hq : paths.Protected m q) : ¬ p <+: q := by
  intro hpq
  rcases hq with ⟨dir, hdir, hq⟩ | hserver
  · exact h.artefacts p hp dir hdir (comparable_of_isPrefix hpq hq)
  · obtain ⟨roots, hroots, root, hroot, hp⟩ := hp
    rw [artefactRoots_eq hn] at hroots
    cases hroots
    have hseparate := (disjoint_iff hm hn hne).mp h
    rcases hserver with rfl | rfl
    · exact hseparate.server_apart (.inl rfl) hroot (hp.trans hpq)
    · exact hseparate.server_apart (.inr rfl) hroot (hp.trans hpq)

/-- Every step of a removal is at or below the directories of its machine. -/
theorem removeOne_artefact {α : Type} {entries : List String} {ops : List (TreeOp String α)}
    (h : paths.removeOne n entries = .ok ops) : ∀ op ∈ ops, ∀ p ∈ op.operands, paths.Artefact n p := by
  obtain ⟨machine, hmachine, h⟩ := Res.bind_ok h
  obtain ⟨runtime, hruntime, h⟩ := Res.bind_ok h
  obtain ⟨tombstone, htombstone, h⟩ := Res.bind_ok h
  have hroots : paths.artefactRoots n = .ok [machine, tombstone, runtime] := by
    rw [artefactRoots, hmachine, htombstone, hruntime]
    rfl
  have hroot : ∀ root ∈ [machine, tombstone, runtime], paths.Artefact n root :=
    fun root hroot => ⟨_, hroots, root, hroot, List.prefix_refl root⟩
  cases h
  intro op hop p hp
  rcases List.mem_append.mp hop with hop | hop
  · obtain ⟨entry, -, rfl⟩ := List.mem_map.mp hop
    obtain rfl : p = runtime ++ [entry] := by simpa [TreeOp.operands] using hp
    exact ⟨_, hroots, runtime, by simp, List.prefix_append _ _⟩
  · simp only [List.mem_cons, List.not_mem_nil, or_false] at hop
    rcases hop with rfl | rfl | rfl | rfl <;> simp only [TreeOp.operands, List.mem_cons, List.not_mem_nil, or_false] at hp
    · exact hroot p (by simp [hp])
    · exact hroot p (by simp [hp])
    · rcases hp with rfl | rfl
      · exact hroot p (by simp)
      · exact hroot p (by simp)
    · exact hroot p (by simp [hp])

end Paths

end Firestone
