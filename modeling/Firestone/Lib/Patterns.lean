import Firestone.Lib.Bytes
import Mathlib.Computability.Language
import Mathlib.Order.CompletePartialOrder

/-!
# Patterns

Regular patterns as languages, for two shapes that names and numbers are written in.

* `groups c l n` — words of `l` with the symbol `c` between them; `mem_groups_iff` takes one apart at `c`.
* `runs a s` — one or more `a`, then any number of times `s` and one or more `a`. After its first `a` it is `continuation`,
  and `continuation_le` says that this is the least that is closed under what may come next.
-/

namespace Firestone.Lib.Patterns

open Computability

/-! ## Symbols of a class -/

section Symbols

variable {α : Type}

/-- One symbol of a class. -/
def oneOf (p : α → Prop) : Language α := {w | ∃ c, p c ∧ w = [c]}

/-- Words of a class. -/
def allOf (p : α → Prop) : Language α := {w | ∀ c ∈ w, p c}

theorem mem_of_le {l m : Language α} (h : l ≤ m) {w : List α} (hw : w ∈ l) : w ∈ m := by
  have hsub : ∀ w, w ∈ l → w ∈ m := h
  exact hsub w hw

theorem mem_oneOf {p : α → Prop} {w : List α} : w ∈ oneOf p ↔ ∃ c, p c ∧ w = [c] := Iff.rfl

theorem mem_oneOf_mul {p : α → Prop} {l : Language α} {w : List α} :
    w ∈ oneOf p * l ↔ ∃ c rest, p c ∧ rest ∈ l ∧ w = c :: rest := by
  rw [Language.mem_mul]
  constructor
  · rintro ⟨_, ⟨c, hc, rfl⟩, rest, hrest, rfl⟩
    exact ⟨c, rest, hc, hrest, rfl⟩
  · rintro ⟨c, rest, hc, hrest, rfl⟩
    exact ⟨[c], ⟨c, hc, rfl⟩, rest, hrest, rfl⟩

end Symbols

/-! ## Groups -/

section Groups

variable {α : Type}

/-- `n + 1` words with a symbol between each two. -/
def groups (c : α) (l : Language α) (n : Nat) : Language α := l * (oneOf (· = c) * l) ^ n

theorem mem_groups_succ {c : α} {l : Language α} {n : Nat} {w : List α} :
    w ∈ groups c l (n + 1) ↔ ∃ p ∈ l, ∃ rest ∈ groups c l n, w = p ++ c :: rest := by
  rw [groups, pow_succ', mul_assoc, Language.mem_mul]
  constructor
  · rintro ⟨p, hp, tail, htail, rfl⟩
    obtain ⟨_, rest, rfl, hrest, rfl⟩ := mem_oneOf_mul.mp htail
    exact ⟨p, hp, rest, hrest, rfl⟩
  · rintro ⟨p, hp, rest, hrest, rfl⟩
    exact ⟨p, hp, c :: rest, mem_oneOf_mul.mpr ⟨c, rest, rfl, hrest, rfl⟩, rfl⟩

theorem mem_groups_iff_intercalate {c : α} {l : Language α} {n : Nat} {w : List α} :
    w ∈ groups c l n ↔ ∃ pieces, pieces.length = n + 1 ∧ (∀ p ∈ pieces, p ∈ l) ∧ w = [c].intercalate pieces := by
  induction n generalizing w with
  | zero =>
    rw [groups, pow_zero, mul_one]
    constructor
    · exact fun hw => ⟨[w], rfl, by simpa using hw, (List.intercalate_singleton).symm⟩
    · rintro ⟨pieces, hlen, hall, rfl⟩
      obtain ⟨p, rfl⟩ := List.length_eq_one_iff.mp hlen
      rw [List.intercalate_singleton]
      exact hall p List.mem_cons_self
  | succ n ih =>
    rw [mem_groups_succ]
    constructor
    · rintro ⟨p, hp, rest, hrest, rfl⟩
      obtain ⟨pieces, hlen, hall, rfl⟩ := ih.mp hrest
      have hne : pieces ≠ [] := List.ne_nil_of_length_eq_add_one hlen
      refine ⟨p :: pieces, by rw [List.length_cons, hlen], List.forall_mem_cons.mpr ⟨hp, hall⟩, ?_⟩
      rw [List.intercalate_cons_of_ne_nil hne]
      simp
    · rintro ⟨pieces, hlen, hall, rfl⟩
      obtain ⟨p, pieces, rfl⟩ := List.exists_cons_of_ne_nil (List.ne_nil_of_length_eq_add_one hlen)
      have hlen : pieces.length = n + 1 := by simpa using hlen
      obtain ⟨hp, hall⟩ := List.forall_mem_cons.mp hall
      refine ⟨p, hp, [c].intercalate pieces, ih.mpr ⟨pieces, hlen, hall, rfl⟩, ?_⟩
      rw [List.intercalate_cons_of_ne_nil (List.ne_nil_of_length_eq_add_one hlen)]
      simp

/-- Words without the symbol are the pieces between its occurrences. -/
theorem mem_groups_iff [DecidableEq α] {c : α} {l : Language α} (hl : ∀ w ∈ l, c ∉ w) {n : Nat} {w : List α} :
    w ∈ groups c l n ↔ (w.splitOn c).length = n + 1 ∧ ∀ p ∈ w.splitOn c, p ∈ l := by
  rw [mem_groups_iff_intercalate]
  constructor
  · rintro ⟨pieces, hlen, hall, rfl⟩
    have hne : pieces ≠ [] := List.ne_nil_of_length_eq_add_one hlen
    rw [List.splitOn_intercalate c (fun p hp => hl p (hall p hp)) hne]
    exact ⟨hlen, hall⟩
  · rintro ⟨hlen, hall⟩
    exact ⟨w.splitOn c, hlen, hall, (List.intercalate_splitOn c).symm⟩

end Groups

/-! ## Runs -/

section Runs

variable {α : Type} [KleeneAlgebra α]

/-- One or more. -/
def plus (a : α) : α := a * a∗

def runs (a s : α) : α := plus a * (s * plus a)∗

/-- What may follow an `a`. -/
def continuation (a s : α) : α := a∗ * (s * plus a)∗

theorem runs_eq (a s : α) : runs a s = a * continuation a s := mul_assoc _ _ _

theorem one_le_continuation (a s : α) : 1 ≤ continuation a s := by
  calc (1 : α) = 1 * 1 := (mul_one 1).symm
    _ ≤ a∗ * (s * plus a)∗ := mul_le_mul' one_le_kstar one_le_kstar

theorem mul_continuation_le (a s : α) : a * continuation a s ≤ continuation a s := by
  calc a * continuation a s = a * a∗ * (s * plus a)∗ := (mul_assoc _ _ _).symm
    _ ≤ a∗ * (s * plus a)∗ := mul_le_mul_left mul_kstar_le_kstar _

/-- A separator is followed by at least one `a`. -/
theorem separator_mul_continuation_le (a s : α) : s * (a * continuation a s) ≤ continuation a s := by
  calc s * (a * continuation a s) = s * plus a * (s * plus a)∗ := by rw [← runs_eq, runs, mul_assoc]
    _ ≤ (s * plus a)∗ := mul_kstar_le_kstar
    _ = 1 * (s * plus a)∗ := (one_mul _).symm
    _ ≤ a∗ * (s * plus a)∗ := mul_le_mul_left one_le_kstar _

theorem continuation_le {a s t : α} (hnil : 1 ≤ t) (hletter : a * t ≤ t) (hseparator : s * (a * t) ≤ t) :
    continuation a s ≤ t := by
  have hletters : a∗ * t ≤ t := kstar_mul_le le_rfl hletter
  have hgroup : s * plus a * t ≤ t := by
    calc s * plus a * t = s * (a * (a∗ * t)) := by rw [plus, mul_assoc, mul_assoc]
      _ ≤ s * (a * t) := mul_le_mul_right (mul_le_mul_right hletters a) s
      _ ≤ t := hseparator
  have hgroups : (s * plus a)∗ ≤ t := by
    calc (s * plus a)∗ = (s * plus a)∗ * 1 := (mul_one _).symm
      _ ≤ t := kstar_mul_le hnil hgroup
  exact kstar_mul_le hgroups hletter

end Runs

end Firestone.Lib.Patterns
