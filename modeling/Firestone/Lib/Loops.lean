import Mathlib.Data.List.Basic
import Mathlib.Tactic.Common

/-!
# Loops that stop at the first error

* `forM_ok_iff` — a loop of checks passes when every check does.
* `exists_mapM` — a loop whose every turn succeeds makes as many results as turns.
* `forall_of_mapM` — what every turn establishes holds for all results.
* `mapM_zipIdx_self` — a loop whose turns give back what they take gives the list back.
-/

namespace Firestone.Lib

variable {ε α β : Type}

theorem forM_ok_iff {f : α → Except ε Unit} {l : List α} : l.forM f = .ok () ↔ ∀ x ∈ l, f x = .ok () := by
  induction l with
  | nil => simp [pure, Except.pure]
  | cons x l ih =>
    rw [List.forM, List.forall_mem_cons, ← ih]
    cases hx : f x with
    | error e => simp [bind, Except.bind]
    | ok u => simp [bind, Except.bind]

theorem exists_mapM {f : α → Except ε β} {l : List α} (h : ∀ x ∈ l, ∃ y, f x = .ok y) :
    ∃ ys, l.mapM f = .ok ys ∧ ys.length = l.length := by
  induction l with
  | nil => exact ⟨[], rfl, rfl⟩
  | cons x l ih =>
    obtain ⟨⟨y, hy⟩, hl⟩ := List.forall_mem_cons.mp h
    obtain ⟨ys, hys, hlength⟩ := ih hl
    refine ⟨y :: ys, ?_, congrArg Nat.succ hlength⟩
    rw [List.mapM_cons, hy, hys]
    rfl

theorem forall_of_mapM {f : α → Except ε β} {P : β → Prop} (hf : ∀ x y, f x = .ok y → P y) {l : List α} {l' : List β}
    (h : l.mapM f = .ok l') : ∀ y ∈ l', P y := by
  induction l generalizing l' with
  | nil =>
    cases h
    simp
  | cons x l ih =>
    rw [List.mapM_cons] at h
    cases hx : f x with
    | error e =>
      rw [hx] at h
      cases h
    | ok y =>
      cases hl : l.mapM f with
      | error e =>
        rw [hx, hl] at h
        cases h
      | ok ys =>
        rw [hx, hl] at h
        cases h
        exact List.forall_mem_cons.mpr ⟨hf x y hx, ih hl⟩

theorem mapM_zipIdx_self {f : α × Nat → Except ε α} {l : List α} (n : Nat) (h : ∀ x ∈ l, ∀ i, f (x, i) = .ok x) :
    (l.zipIdx n).mapM f = .ok l := by
  induction l generalizing n with
  | nil => rfl
  | cons x l ih =>
    obtain ⟨hx, hl⟩ := List.forall_mem_cons.mp h
    rw [List.zipIdx_cons, List.mapM_cons, hx n, ih (n + 1) hl]
    rfl

/-! ## Values that may be absent -/

theorem optionMapM_self {f : α → Except ε α} {o : Option α} (h : ∀ x ∈ o, f x = .ok x) : o.mapM f = .ok o := by
  cases o with
  | none => rfl
  | some x =>
    rw [Option.mapM_some, h x rfl]
    rfl

theorem forall_of_optionMapM {f : α → Except ε β} {P : β → Prop} (hf : ∀ x y, f x = .ok y → P y) {o : Option α} {o' : Option β}
    (h : o.mapM f = .ok o') : ∀ y ∈ o', P y := by
  cases o with
  | none =>
    cases h
    simp
  | some x =>
    rw [Option.mapM_some] at h
    cases hx : f x with
    | error e =>
      rw [hx] at h
      cases h
    | ok y =>
      rw [hx] at h
      cases h
      rintro z ⟨⟩
      exact hf x y hx

end Firestone.Lib
