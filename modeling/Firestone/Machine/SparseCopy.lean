import Firestone.Error
import Firestone.Lib.SparseFile

/-!
# Copying disks and memory

A snapshot copies the files of a machine block by block. A block of zeros is not written, so that the holes of the source stay
holes, and the length of the destination is set at the end.

* `readBlock` — fills a block, whatever the kernel answers to each read.
* `sparseCopyFile` — the copy, with the destination that it leaves.
* `readBlock_append` — the blocks follow one another in the source.
* `sparseCopyFile_exact` — the destination is the source, and a copy without faults succeeds.
-/

namespace Firestone.Machine.Snapshot

open Firestone.Lib

def u64Max : Nat := 2 ^ 64 - 1

def saturatingAdd (a b : Nat) : Nat := min (a + b) u64Max

def sparseBlockBytes : Nat := 128 * 1024

/-- A file to copy. Its length is a number of 64 bits. -/
structure SourceFile where
  bytes : Bytes
  isFile : Bool
  length_le : bytes.length ≤ u64Max

/-- What the kernel answers to a read: at most so many bytes after the first, an interruption, or a failure. -/
inductive ReadAnswer
  | bytes (more : Nat)
  | interrupted
  | failed
  deriving DecidableEq, Repr

/-- The calls that may fail; the blocks are counted. -/
inductive Call
  | openSource | inspect | create | seek (block : Nat) | write (block : Nat) | truncate | sync
  deriving DecidableEq, Repr

/-- What the system does: its answers to the reads, after which a read gives all that there is, and the calls that fail. -/
structure System where
  reads : List ReadAnswer
  fails : Call → Bool

structure SparseCopy where
  apparentBytes : Nat
  writtenBytes : Nat
  deriving DecidableEq, Repr

def snapshotIoError (operation path : String) : FirestoneError :=
  (FirestoneError.new .generic ("cannot " ++ operation ++ " '" ++ path ++ "'")).withHint
    "check the Firestone data directory permissions"

/-! ## Reading a block -/

/-- What a read left: the block, the rest of the source and the answers still to come. -/
structure Filled where
  block : Bytes
  rest : Bytes
  answers : List ReadAnswer
  deriving DecidableEq, Repr

/-- `read_block`, with the bytes that are in the buffer already; `none` is a failed read. -/
@[grind =] def readBlock (capacity : Nat) : List ReadAnswer → Bytes → Bytes → Option Filled
  | [], rest, filled =>
    some ⟨filled ++ rest.take (capacity - filled.length), rest.drop (capacity - filled.length), []⟩
  | answer :: answers, rest, filled =>
    if filled.length < capacity then
      match answer with
      | .interrupted => readBlock capacity answers rest filled
      | .failed => none
      | .bytes more =>
        let read := min (more + 1) (min (capacity - filled.length) rest.length)
        if read = 0 then some ⟨filled, rest, answers⟩
        else readBlock capacity answers (rest.drop read) (filled ++ rest.take read)
    else some ⟨filled, rest, answer :: answers⟩

section Reading

variable {capacity : Nat} {answers : List ReadAnswer} {rest filled : Bytes} {r : Filled}

/-- The blocks follow one another in the source. -/
theorem readBlock_append (h : readBlock capacity answers rest filled = some r) :
    r.block ++ r.rest = filled ++ rest ∧ filled <+: r.block := by
  induction answers generalizing rest filled with
  | nil =>
    cases h
    refine ⟨?_, List.prefix_append _ _⟩
    rw [List.append_assoc, List.take_append_drop]
  | cons answer answers ih =>
    unfold readBlock at h
    split at h
    · cases answer with
      | interrupted => exact ih h
      | failed => cases h
      | bytes more =>
        simp only at h
        split at h
        · cases h
          exact ⟨rfl, List.prefix_rfl⟩
        · obtain ⟨hall, hstart⟩ := ih h
          refine ⟨?_, (List.prefix_append _ _).trans hstart⟩
          rw [hall, List.append_assoc, List.take_append_drop]
    · cases h
      exact ⟨rfl, List.prefix_rfl⟩

/-- A block is empty at the end of the source only. -/
theorem rest_of_block_nil (hcapacity : 0 < capacity) (h : readBlock capacity answers rest filled = some r)
    (hr : r.block = []) : rest = [] := by
  induction answers generalizing rest filled with
  | nil =>
    cases h
    obtain ⟨rfl, htake⟩ := List.append_eq_nil_iff.mp hr
    exact (List.take_eq_nil_iff.mp htake).resolve_left (Nat.ne_of_gt hcapacity)
  | cons answer answers ih =>
    have hfilled : filled = [] := by
      have hstart := (readBlock_append h).2
      rw [hr] at hstart
      exact List.prefix_nil.mp hstart
    subst hfilled
    unfold readBlock at h
    rw [if_pos (show ([] : Bytes).length < capacity from hcapacity)] at h
    cases answer with
    | interrupted => exact ih h
    | failed => cases h
    | bytes more =>
      simp only at h
      split at h
      · rename_i hread
        rw [List.length_nil] at hread
        exact List.length_eq_zero_iff.mp (by omega)
      · rename_i hread
        have hstart := (readBlock_append h).2
        rw [hr, List.nil_append, List.prefix_nil, List.take_eq_nil_iff] at hstart
        exact hstart.resolve_left hread

/-- Reads that do not fail fill a block. -/
theorem readBlock_isSome (h : .failed ∉ answers) : ∃ r, readBlock capacity answers rest filled = some r ∧ .failed ∉ r.answers := by
  induction answers generalizing rest filled with
  | nil => exact ⟨_, rfl, List.not_mem_nil⟩
  | cons answer answers ih =>
    rw [List.mem_cons, not_or] at h
    unfold readBlock
    split
    · cases answer with
      | interrupted => exact ih h.2
      | failed => exact absurd rfl h.1
      | bytes more =>
        simp only
        split
        · exact ⟨_, rfl, h.2⟩
        · exact ih h.2
    · exact ⟨_, rfl, by rw [List.mem_cons, not_or]; exact h⟩

end Reading

/-! ## The copy -/

/-- The destination and what is counted. -/
structure Writer where
  file : SparseFile
  offset : Nat
  writtenBytes : Nat
  blocks : Nat

/-- One turn of the loop, after a block was read. -/
def Writer.add (system : System) (destination : String) (w : Writer) (block : Bytes) : Res Writer :=
  if block.any (· ≠ 0) then
    if system.fails (.seek w.blocks) then .error (snapshotIoError "seek" destination)
    else if system.fails (.write w.blocks) then .error (snapshotIoError "write" destination)
    else .ok ⟨w.file.write w.offset block, saturatingAdd w.offset block.length, saturatingAdd w.writtenBytes block.length,
      w.blocks + 1⟩
  else .ok { w with offset := saturatingAdd w.offset block.length, blocks := w.blocks + 1 }

/-- The loop over the blocks. -/
@[grind =]
def copyBlocks (system : System) (source destination : String) (answers : List ReadAnswer) (rest : Bytes) (w : Writer) :
    Res Writer :=
  match h : readBlock sparseBlockBytes answers rest [] with
  | none => .error (snapshotIoError "read" source)
  | some r =>
    if hblock : r.block = [] then .ok w
    else do
      let w ← w.add system destination r.block
      copyBlocks system source destination r.answers r.rest w
termination_by rest.length
decreasing_by
  have hlength := congrArg List.length (readBlock_append h).1
  have hpos := List.length_pos_iff.mpr hblock
  rw [List.length_append, List.nil_append] at hlength
  omega

/-- `sparse_copy_file`: the counts and the destination. -/
def sparseCopyFile (system : System) (source destination : String) (file : SourceFile) (destinationExists : Bool) :
    Res (SparseCopy × SparseFile) :=
  if system.fails .openSource then .error (snapshotIoError "open" source)
  else if system.fails .inspect then .error (snapshotIoError "inspect" source)
  else if !file.isFile then
    .error <| (FirestoneError.new .dependency ("'" ++ source ++ "' is not a regular file")).withHint
      "restore the owned machine file and retry"
  else if destinationExists || system.fails .create then .error (snapshotIoError "create" destination)
  else do
    let w ← copyBlocks system source destination system.reads file.bytes ⟨[], 0, 0, 0⟩
    let file' := w.file.setLen file.bytes.length
    if system.fails .truncate then .error (snapshotIoError "truncate" destination)
    else if system.fails .sync then .error (snapshotIoError "sync" destination)
    else .ok (⟨file.bytes.length, w.writtenBytes⟩, file')

/-! ## What is copied -/

/-- The writer has copied these bytes. -/
structure Writer.Copied (w : Writer) (done : Bytes) : Prop where
  holds : w.file.Holds done
  offset : w.offset = done.length
  written : w.writtenBytes ≤ done.length

section Copying

variable {system : System} {source destination : String} {w w' : Writer} {done block rest : Bytes}

theorem saturatingAdd_of_le {a b : Nat} (h : a + b ≤ u64Max) : saturatingAdd a b = a + b := Nat.min_eq_left h

/-- One turn of the loop copies its block. -/
theorem Writer.Copied.add (h : w.Copied done) (hlength : (done ++ block).length ≤ u64Max)
    (hadd : w.add system destination block = .ok w') : w'.Copied (done ++ block) := by
  obtain ⟨hholds, hoffset, hwritten⟩ := h
  rw [List.length_append] at hlength
  have hnext : saturatingAdd w.offset block.length = (done ++ block).length := by
    rw [hoffset, saturatingAdd_of_le hlength, List.length_append]
  have hcount : saturatingAdd w.writtenBytes block.length ≤ (done ++ block).length := by
    rw [saturatingAdd_of_le (by omega), List.length_append]
    omega
  unfold Writer.add at hadd
  split at hadd
  · split at hadd
    · cases hadd
    · split at hadd
      · cases hadd
      · cases hadd
        exact ⟨hoffset ▸ hholds.write, hnext, hcount⟩
  · rename_i hzero
    cases hadd
    refine ⟨hholds.skip fun b hb => ?_, hnext, Nat.le_trans hwritten (by rw [List.length_append]; omega)⟩
    by_contra hne
    exact hzero (List.any_eq_true.mpr ⟨b, hb, decide_eq_true hne⟩)

/-- The loop copies the rest of the source. -/
theorem copyBlocks_copied {answers : List ReadAnswer} (h : w.Copied done) (hlength : (done ++ rest).length ≤ u64Max)
    (hcopy : copyBlocks system source destination answers rest w = .ok w') : w'.Copied (done ++ rest) := by
  induction hn : rest.length using Nat.strongRecOn generalizing answers rest w done with
  | ind n ih =>
    unfold copyBlocks at hcopy
    split at hcopy
    · cases hcopy
    · rename_i r hread
      obtain ⟨hall, -⟩ := readBlock_append hread
      rw [List.nil_append] at hall
      split at hcopy
      · rename_i hblock
        cases hcopy
        rw [rest_of_block_nil (by decide) hread hblock, List.append_nil]
        exact h
      · rename_i hblock
        obtain ⟨next, hadd, hrest⟩ := Res.bind_ok hcopy
        have hsplit : done ++ rest = done ++ r.block ++ r.rest := by rw [List.append_assoc, hall]
        rw [hsplit] at hlength ⊢
        have hshort : (done ++ r.block).length ≤ u64Max := by
          rw [List.length_append] at hlength
          omega
        have hsmaller : r.rest.length < n := by
          have hpos := List.length_pos_iff.mpr hblock
          rw [← hn, ← hall, List.length_append]
          omega
        exact ih _ hsmaller (h.add hshort hadd) hlength hrest rfl

/-- A system without faults lets the loop go through. -/
theorem copyBlocks_isOk (hfails : ∀ call, system.fails call = false) {answers : List ReadAnswer} (hanswers : .failed ∉ answers) :
    ∃ w', copyBlocks system source destination answers rest w = .ok w' := by
  induction hn : rest.length using Nat.strongRecOn generalizing answers rest w with
  | ind n ih =>
    obtain ⟨r, hread, hanswers'⟩ : ∃ r, readBlock sparseBlockBytes answers rest [] = some r ∧ .failed ∉ r.answers :=
      readBlock_isSome hanswers
    unfold copyBlocks
    split
    · rename_i hnone
      rw [hread] at hnone
      cases hnone
    · rename_i r' hread'
      rw [hread] at hread'
      cases hread'
      split
      · exact ⟨w, rfl⟩
      · rename_i hblock
        obtain ⟨next, hadd⟩ : ∃ next, w.add system destination r.block = .ok next := by
          rw [Writer.add, hfails, hfails]
          split <;> exact ⟨_, rfl⟩
        have hall := congrArg List.length (readBlock_append hread).1
        rw [List.length_append, List.nil_append] at hall
        have hpos := List.length_pos_iff.mpr hblock
        obtain ⟨w', hw'⟩ : ∃ w', copyBlocks system source destination r.answers r.rest next = .ok w' :=
          ih r.rest.length (by omega) hanswers' rfl
        exact ⟨w', Res.bind_ok_iff.mpr ⟨next, hadd, hw'⟩⟩

end Copying

/-- **The copy is exact**: the destination has the bytes and the length of the source, holes as zeros, and no more bytes are
reported as written than it has; without faults there is a copy, however short the reads are. -/
theorem sparseCopyFile_exact (system : System) (source destination : String) (file : SourceFile) (destinationExists : Bool) :
    (∀ copy file', sparseCopyFile system source destination file destinationExists = .ok (copy, file') →
      file'.contents = file.bytes ∧ file'.length = file.bytes.length ∧ copy.apparentBytes = file.bytes.length ∧
        copy.writtenBytes ≤ copy.apparentBytes) ∧
    (file.isFile = true → destinationExists = false → (∀ call, system.fails call = false) → .failed ∉ system.reads →
      ∃ copy file', sparseCopyFile system source destination file destinationExists = .ok (copy, file')) := by
  constructor
  · intro copy file' h
    unfold sparseCopyFile at h
    split at h
    · cases h
    split at h
    · cases h
    split at h
    · cases h
    split at h
    · cases h
    obtain ⟨w, hcopy, h⟩ := Res.bind_ok h
    have hstart : Writer.Copied ⟨[], 0, 0, 0⟩ [] := ⟨.nil, rfl, Nat.le_refl 0⟩
    have hcopied : w.Copied file.bytes := copyBlocks_copied hstart file.length_le hcopy
    simp only at h
    split at h
    · cases h
    split at h
    · cases h
    cases h
    obtain ⟨hcontents, hlength⟩ := hcopied.holds.setLen
    exact ⟨hcontents, hlength, rfl, hcopied.written⟩
  · intro hfile hdestination hfails hreads
    obtain ⟨w, hcopy⟩ : ∃ w, copyBlocks system source destination system.reads file.bytes ⟨[], 0, 0, 0⟩ = .ok w :=
      copyBlocks_isOk hfails hreads
    unfold sparseCopyFile
    rw [hfile, hdestination, hcopy]
    simp only [hfails]
    exact ⟨_, _, rfl⟩

end Firestone.Machine.Snapshot
