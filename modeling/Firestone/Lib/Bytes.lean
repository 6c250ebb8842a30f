import Mathlib.Algebra.GroupWithZero.Nat
import Mathlib.Data.List.Basic
import Mathlib.Tactic.Common

/-!
# Byte strings

Byte strings as lists of bytes, their lossy reading as text, and the pieces of a string between separators:
`stem_sep_iff` says that a string starts with `p` and a separator exactly when the pieces of `p` are a proper initial
part of its pieces.
-/

namespace Firestone.Lib

/-- A byte string. -/
abbrev Bytes := List UInt8

instance lawfulBEq_bytes : LawfulBEq Bytes := inferInstance

/-- The UTF-8 bytes of a text. -/
def bytes (s : String) : Bytes := s.toUTF8.data.toList

/-! ## Lossy decoding -/

/-- A continuation byte in the given range. -/
def contIn (lo hi b : UInt8) : Bool := lo ≤ b && b ≤ hi

/-- The range of the second byte after a lead byte, and how many continuation bytes the lead byte asks for. -/
def leadByte (b : UInt8) : Option (UInt8 × UInt8 × Nat) :=
  if contIn 0xC2 0xDF b then some (0x80, 0xBF, 1)
  else if b = 0xE0 then some (0xA0, 0xBF, 2)
  else if b = 0xED then some (0x80, 0x9F, 2)
  else if contIn 0xE1 0xEF b then some (0x80, 0xBF, 2)
  else if b = 0xF0 then some (0x90, 0xBF, 3)
  else if contIn 0xF1 0xF3 b then some (0x80, 0xBF, 3)
  else if b = 0xF4 then some (0x80, 0x8F, 3)
  else none

/-- Reads up to `n` continuation bytes, the first one in `[lo, hi]`: the value so far, how many are still missing,
and the rest of the input. -/
@[grind =] def contBytes : Nat → UInt8 → UInt8 → Nat → Bytes → Nat × Nat × Bytes
  | 0, _, _, acc, bs => (acc, 0, bs)
  | n + 1, _, _, acc, [] => (acc, n + 1, [])
  | n + 1, lo, hi, acc, b :: bs =>
    if contIn lo hi b then contBytes n 0x80 0xBF (acc * 64 + b.toNat % 64) bs else (acc, n + 1, b :: bs)

/-- One character of a lossy reading: a maximal invalid part is one replacement character. -/
def lossyChar (b : UInt8) (bs : Bytes) : Char × Bytes :=
  if b < 0x80 then (Char.ofNat b.toNat, bs)
  else match leadByte b with
    | none => ('\uFFFD', bs)
    | some (lo, hi, n) =>
      match contBytes n lo hi (b.toNat % 2 ^ (6 - n)) bs with
      | (v, 0, rest) => (Char.ofNat v, rest)
      | (_, _ + 1, rest) => ('\uFFFD', rest)

/-- The characters of a lossy reading, at most `fuel` of them. -/
@[grind =] def lossyChars : Nat → Bytes → List Char
  | 0, _ => []
  | _ + 1, [] => []
  | fuel + 1, b :: bs => (lossyChar b bs).1 :: lossyChars fuel (lossyChar b bs).2

/-- Text of a byte string, with every maximal invalid part replaced by U+FFFD (`String::from_utf8_lossy`). -/
def fromUtf8Lossy (bs : Bytes) : String := String.ofList (lossyChars bs.length bs)

example : fromUtf8Lossy [0x61, 0xE2, 0x82, 0xAC, 0xE2, 0x82, 0x7A, 0xFF] = "a€\uFFFDz\uFFFD" := by decide

/-! ## Pieces between separators -/

section Pieces

variable {α : Type} {x : α}

/-- Joining two nonempty lists of pieces joins the joins. -/
theorem intercalate_append : ∀ {as bs : List (List α)}, as ≠ [] → bs ≠ [] →
    [x].intercalate (as ++ bs) = [x].intercalate as ++ x :: [x].intercalate bs
  | [], _, ha, _ => absurd rfl ha
  | [a], bs, _, hb => by
    rw [List.singleton_append, List.intercalate_cons_of_ne_nil hb, List.intercalate_singleton]
    simp
  | a :: a' :: as, bs, _, hb => by
    rw [List.cons_append, List.cons_append, List.intercalate_cons_cons, ← List.cons_append,
      intercalate_append (by simp) hb, List.intercalate_cons_cons]
    simp

variable [DecidableEq α]

/-- The first occurrence of an element splits a list. -/
theorem split_at_idxOf? : ∀ {l : List α} {i : Nat}, l.idxOf? x = some i →
    ∃ u v, l = u ++ x :: v ∧ u.length = i ∧ x ∉ u
  | [], i, h => by simp at h
  | y :: l, i, h => by
    rw [List.idxOf?_cons] at h
    by_cases hy : y = x
    · rw [if_pos (by simp [hy])] at h
      cases h
      exact ⟨[], l, by simp [hy], rfl, by simp⟩
    · rw [if_neg (by simp [hy])] at h
      obtain ⟨j, hj, rfl⟩ := Option.map_eq_some_iff.mp h
      obtain ⟨u, v, rfl, rfl, hu⟩ := split_at_idxOf? hj
      exact ⟨y :: u, v, rfl, rfl, by simp [hu, Ne.symm hy]⟩

/-- No piece has the separator in it. -/
theorem notMem_of_mem_splitOn : ∀ {l piece : List α},
    piece ∈ l.splitOn x → x ∉ piece
  | [], piece, hp => by
    rw [List.splitOn_nil, List.mem_singleton] at hp
    subst hp
    exact List.not_mem_nil
  | y :: l, piece, hp => by
    rw [List.splitOn_cons_eq_if_modifyHead] at hp
    obtain ⟨first, others, hl⟩ := List.exists_cons_of_ne_nil (List.splitOn_ne_nil x l)
    split at hp
    · rcases List.mem_cons.mp hp with rfl | hp
      · exact List.not_mem_nil
      · exact notMem_of_mem_splitOn hp
    · rename_i hy
      rw [hl, List.modifyHead_cons] at hp
      rcases List.mem_cons.mp hp with rfl | hp
      · have hfirst : x ∉ first := notMem_of_mem_splitOn (hl ▸ List.mem_cons_self)
        have hne : x ≠ y := fun he => hy (by simp [he])
        simp [hfirst, hne]
      · exact notMem_of_mem_splitOn (hl ▸ List.mem_cons_of_mem _ hp)

/-- A string starts with `p` and a separator exactly when the pieces of `p` properly begin its pieces. -/
theorem stem_sep_iff {p q : List α} :
    p ++ [x] <+: q ↔ ∃ rest ≠ [], q.splitOn x = p.splitOn x ++ rest := by
  constructor
  · rintro ⟨r, rfl⟩
    refine ⟨r.splitOn x, List.splitOn_ne_nil x r, ?_⟩
    rw [List.append_assoc, List.singleton_append, List.splitOn_append_cons_self]
  · rintro ⟨rest, hne, hq⟩
    refine ⟨[x].intercalate rest, ?_⟩
    calc p ++ [x] ++ [x].intercalate rest
        = [x].intercalate (p.splitOn x ++ rest) := by
          rw [intercalate_append (List.splitOn_ne_nil x p) hne, List.intercalate_splitOn]; simp
      _ = q := by rw [← hq, List.intercalate_splitOn]

end Pieces

end Firestone.Lib
