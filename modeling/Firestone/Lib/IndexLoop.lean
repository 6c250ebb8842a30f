import Mathlib.Data.List.Basic
import Mathlib.Tactic.Common

/-!
# Loops over an index

Code that goes through a list by an index, with checked reads: a read outside of the list is a fault, and so is a loop that
does not end within its fuel.

* `readAt`, `slice` — the checked reads.
* `loop`, `loop_eq` — a loop, and the rule for its result: a function of the state that the turns keep, and a size that they
  make smaller.
* `scanWhile_eq` — the loop that passes over the elements with a property.
-/

namespace Firestone.Lib

inductive Fault
  | outOfRange | outOfFuel
  deriving DecidableEq, Repr

/-- A result, or the fault that ended the code. -/
abbrev Checked (α : Type) := Except Fault α

variable {α β σ : Type}

/-! ## Reads -/

def readAt (xs : List α) (index : Nat) : Checked α :=
  match xs[index]? with
  | some x => .ok x
  | none => .error .outOfRange

/-- The elements from `start` up to `stop`, if these are in the list. -/
def getRange (xs : List α) (start stop : Nat) : Option (List α) :=
  if start ≤ stop ∧ stop ≤ xs.length then some ((xs.take stop).drop start) else none

def slice (xs : List α) (start stop : Nat) : Checked (List α) :=
  match getRange xs start stop with
  | some taken => .ok taken
  | none => .error .outOfRange

theorem readAt_of_drop {xs : List α} {index : Nat} {x : α} {rest : List α} (h : xs.drop index = x :: rest) :
    readAt xs index = .ok x := by
  have hx : xs[index]? = some x := by rw [← List.head?_drop, h, List.head?_cons]
  rw [readAt, hx]

theorem drop_succ_of_drop {xs : List α} {index : Nat} {x : α} {rest : List α} (h : xs.drop index = x :: rest) :
    xs.drop (index + 1) = rest := by
  rw [← List.drop_drop, h, List.drop_one, List.tail_cons]

/-- What is left of a list at an index inside of it. -/
theorem exists_drop_eq_cons {xs : List α} {index : Nat} (h : index < xs.length) : ∃ x rest, xs.drop index = x :: rest :=
  ⟨_, _, List.drop_eq_getElem_cons h⟩

/-- Whether there is an element at an index and it is `x`; nothing is read behind the end. -/
def isAt [DecidableEq α] (xs : List α) (index : Nat) (x : α) : Checked Bool :=
  if index < xs.length then do return decide ((← readAt xs index) = x) else return false

theorem isAt_eq [DecidableEq α] {xs : List α} {index : Nat} {x : α} :
    isAt xs index x = .ok (decide ((xs.drop index).head? = some x)) := by
  by_cases hindex : index < xs.length
  · obtain ⟨y, rest, hdrop⟩ := exists_drop_eq_cons hindex
    rw [isAt, if_pos hindex, readAt_of_drop hdrop, hdrop, List.head?_cons]
    simp only [Option.some.injEq]
    rfl
  · rw [isAt, if_neg hindex, List.drop_eq_nil_of_le (by omega)]
    rfl

theorem getRange_eq {xs taken rest : List α} {start : Nat} (h : xs.drop start = taken ++ rest) (hstart : start ≤ xs.length) :
    getRange xs start (start + taken.length) = some taken := by
  have hlength : xs.length - start = taken.length + rest.length := by
    rw [← List.length_drop, h, List.length_append]
  rw [getRange, if_pos (by omega), ← List.take_drop, h, List.take_left]

theorem slice_eq {xs taken rest : List α} {start : Nat} (h : xs.drop start = taken ++ rest) (hstart : start ≤ xs.length) :
    slice xs start (start + taken.length) = .ok taken := by
  rw [slice, getRange_eq h hstart]

/-! ## Loops -/

/-- Turns until one is the last. -/
def loop (turn : σ → Checked (σ ⊕ β)) : Nat → σ → Checked β
  | 0, _ => .error .outOfFuel
  | fuel + 1, s => do
    match ← turn s with
    | .inl s' => loop turn fuel s'
    | .inr result => .ok result

/-- **The rule for loops**: every turn gives the result, or keeps it and makes the state smaller. -/
theorem loop_eq {turn : σ → Checked (σ ⊕ β)} (f : σ → β) (size : σ → Nat)
    (hturn : ∀ s, turn s = .ok (.inr (f s)) ∨ ∃ s', turn s = .ok (.inl s') ∧ size s' < size s ∧ f s' = f s) :
    ∀ {fuel : Nat} {s : σ}, size s < fuel → loop turn fuel s = .ok (f s)
  | 0, _, h => by omega
  | fuel + 1, s, h => by
    rcases hturn s with hdone | ⟨s', hnext, hsize, hf⟩
    · rw [loop, hdone]
      rfl
    · rw [loop, hnext, ← hf]
      exact loop_eq f size hturn (by omega)

/-! ## Scans -/

/-- The index of the first element from `start` on without a property. -/
def scanWhile (p : α → Bool) (xs : List α) (fuel start : Nat) : Checked Nat :=
  loop (fun index =>
    if index < xs.length then do
      if p (← readAt xs index) then return .inl (index + 1) else return .inr index
    else return .inr index) fuel start

theorem scanWhile_eq (p : α → Bool) {xs : List α} {fuel start : Nat} (h : xs.length - start < fuel) :
    scanWhile p xs fuel start = .ok (start + ((xs.drop start).takeWhile p).length) := by
  refine loop_eq (fun index => index + ((xs.drop index).takeWhile p).length) (fun index => xs.length - index)
    (fun index => ?_) h
  by_cases hindex : index < xs.length
  · obtain ⟨x, rest, hdrop⟩ := exists_drop_eq_cons hindex
    simp only [if_pos hindex, readAt_of_drop hdrop, hdrop]
    by_cases hx : p x = true
    · refine .inr ⟨index + 1, ?_, by omega, ?_⟩
      · change (if p x = true then _ else _) = _
        rw [if_pos hx]
        rfl
      · rw [drop_succ_of_drop hdrop, List.takeWhile_cons_of_pos hx, List.length_cons]
        omega
    · refine .inl ?_
      change (if p x = true then _ else _) = _
      rw [if_neg hx, List.takeWhile_cons_of_neg hx]
      rfl
  · refine .inl ?_
    rw [if_neg hindex, List.drop_eq_nil_of_le (by omega)]
    rfl

/-- What is left after a scan. -/
theorem drop_scan (p : α → Bool) (xs : List α) (start : Nat) :
    xs.drop (start + ((xs.drop start).takeWhile p).length) = (xs.drop start).dropWhile p := by
  have hsplit := List.takeWhile_append_dropWhile (p := p) (l := xs.drop start)
  calc xs.drop (start + ((xs.drop start).takeWhile p).length)
      = (xs.drop start).drop ((xs.drop start).takeWhile p).length := List.drop_drop.symm
    _ = ((xs.drop start).takeWhile p ++ (xs.drop start).dropWhile p).drop ((xs.drop start).takeWhile p).length := by
        rw [hsplit]
    _ = (xs.drop start).dropWhile p := List.drop_left

theorem slice_scan (p : α → Bool) {xs : List α} {start : Nat} (h : start ≤ xs.length) :
    slice xs start (start + ((xs.drop start).takeWhile p).length) = .ok ((xs.drop start).takeWhile p) :=
  slice_eq (List.takeWhile_append_dropWhile (p := p)).symm h

theorem scan_le (p : α → Bool) {xs : List α} {start : Nat} (h : start ≤ xs.length) :
    start + ((xs.drop start).takeWhile p).length ≤ xs.length := by
  have hlength := (List.takeWhile_sublist p (l := xs.drop start)).length_le
  rw [List.length_drop] at hlength
  omega

end Firestone.Lib
