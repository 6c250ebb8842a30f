import Firestone.Lib.Bytes

/-!
# Files with holes

A file is a sequence of cells, some of which were never written and read as zeros. A write behind the end leaves a hole.

* `SparseFile.write`, `SparseFile.setLen`, `SparseFile.contents` — the calls.
* `SparseFile.Holds` — the file and the zeros that are missing at its end are these bytes.
* `Holds.write`, `Holds.skip`, `Holds.setLen` — a copy that writes at the end of what it holds, leaves zeros out, and sets
  the length when it is done.
-/

namespace Firestone.Lib

/-- The cells of a file; a hole has none. -/
abbrev SparseFile := List (Option UInt8)

def zeros (n : Nat) : Bytes := List.replicate n 0

theorem eq_zeros {block : Bytes} (h : ∀ b ∈ block, b = 0) : block = zeros block.length := List.eq_replicate_iff.mpr ⟨rfl, h⟩

theorem zeros_add (m n : Nat) : zeros (m + n) = zeros m ++ zeros n := (List.replicate_append_replicate ..).symm

namespace SparseFile

/-- What a reader of the file gets. -/
def contents (file : SparseFile) : Bytes := file.map fun cell => cell.getD 0

/-- The cells up to a length, with a hole where there are none. -/
def setLen (file : SparseFile) (length : Nat) : SparseFile :=
  file.take length ++ List.replicate (length - file.length) none

/-- Bytes written at an offset. -/
def write (file : SparseFile) (offset : Nat) (bytes : Bytes) : SparseFile :=
  file.setLen offset ++ bytes.map some ++ file.drop (offset + bytes.length)

/-- The bytes held so far, which the file has but for zeros at the end. -/
structure Holds (file : SparseFile) (bytes : Bytes) : Prop where
  length_le : file.length ≤ bytes.length
  contents_eq : file.contents ++ zeros (bytes.length - file.length) = bytes

variable {file : SparseFile} {bytes block : Bytes}

theorem Holds.nil : Holds [] [] := ⟨Nat.le_refl 0, rfl⟩

theorem contents_append (file file' : SparseFile) : contents (file ++ file') = file.contents ++ contents file' := List.map_append

theorem contents_holes (n : Nat) : contents (List.replicate n none) = zeros n := List.map_replicate

theorem contents_some (bytes : Bytes) : contents (bytes.map some) = bytes := by
  rw [contents, List.map_map]
  exact List.map_id bytes

theorem length_contents (file : SparseFile) : file.contents.length = file.length := List.length_map ..

/-- A file that is made as long as what it holds has it. -/
theorem Holds.setLen (h : Holds file bytes) :
    (file.setLen bytes.length).contents = bytes ∧ (file.setLen bytes.length).length = bytes.length := by
  have hcontents : (file.setLen bytes.length).contents = bytes := by
    rw [SparseFile.setLen, List.take_of_length_le h.length_le, contents_append, contents_holes, h.contents_eq]
  exact ⟨hcontents, by rw [← length_contents, hcontents]⟩

/-- Zeros need not be written. -/
theorem Holds.skip (h : Holds file bytes) (hblock : ∀ b ∈ block, b = 0) : Holds file (bytes ++ block) := by
  have hle := h.length_le
  refine ⟨by rw [List.length_append]; omega, ?_⟩
  have hsplit : (bytes ++ block).length - file.length = (bytes.length - file.length) + block.length := by
    rw [List.length_append]
    omega
  rw [hsplit, zeros_add, ← List.append_assoc, h.contents_eq, ← eq_zeros hblock]

/-- A block is written where the bytes end. -/
theorem Holds.write (h : Holds file bytes) : Holds (file.write bytes.length block) (bytes ++ block) := by
  have hdrop : file.drop (bytes.length + block.length) = [] :=
    List.drop_of_length_le (Nat.le_trans h.length_le (Nat.le_add_right ..))
  have hfile : file.write bytes.length block = file.setLen bytes.length ++ block.map some := by
    rw [SparseFile.write, hdrop, List.append_nil]
  have hcontents : (file.write bytes.length block).contents = bytes ++ block := by
    rw [hfile, contents_append, h.setLen.1, contents_some]
  have hlength : (file.write bytes.length block).length = (bytes ++ block).length := by
    rw [← length_contents, hcontents]
  refine ⟨Nat.le_of_eq hlength, ?_⟩
  rw [hlength, Nat.sub_self, hcontents]
  exact List.append_nil _

end SparseFile

end Firestone.Lib
