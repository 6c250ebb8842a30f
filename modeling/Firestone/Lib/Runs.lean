import Mathlib.Data.List.Basic
import Mathlib.Logic.Function.Basic
import Mathlib.Tactic.Common

/-!
# Runs of a step function

A system is a step function that may refuse an action. A run is a list of actions.

* `run step s as` — the state after the actions, if none was refused.
* `Reachable step ok init s` — `s` is the end of a run from an initial state all of whose steps meet `ok`; with
  `anyStep` for `ok` these are all runs.
* `Reachable.invariant` — what holds initially and is kept by every step that meets `ok` holds in every state reached.
* `run_induction` — the same for what is said of a state and of the actions that are left.
* `foldlM_invariant` — the same for a fold over a list that stops at the first error.
-/

namespace Firestone.Lib

universe u v

variable {σ : Type u} {α : Type v}

/-- The state after a list of actions, if no action is refused. -/
def run (step : σ → α → Option σ) : σ → List α → Option σ
  | s, [] => some s
  | s, a :: as => (step s a).bind (run step · as)

/-- The condition every step meets. -/
def anyStep : σ → α → Prop := fun _ _ => True

/-- Every step of the run from `s` meets `ok`. -/
def StepsMeet (step : σ → α → Option σ) (ok : σ → α → Prop) : σ → List α → Prop
  | _, [] => True
  | s, a :: as => ok s a ∧ ∀ s', step s a = some s' → StepsMeet step ok s' as

/-- Every step of the run from `s` passes a check. -/
def runChecks (step : σ → α → Option σ) (check : σ → α → Bool) : σ → List α → Bool
  | _, [] => true
  | s, a :: as => check s a && (step s a).all (runChecks step check · as)

/-- States at the end of a run from an initial state whose steps all meet `ok`. -/
inductive Reachable (step : σ → α → Option σ) (ok : σ → α → Prop) (init : σ → Prop) : σ → Prop
  | start {s : σ} (h : init s) : Reachable step ok init s
  | next {s s' : σ} (a : α) (hr : Reachable step ok init s) (hok : ok s a) (hs : step s a = some s') :
      Reachable step ok init s'

section rules

variable {step : σ → α → Option σ} {ok : σ → α → Prop} {init : σ → Prop}

/-- The invariant rule. -/
theorem Reachable.invariant {Inv : σ → Prop} (hinit : ∀ s, init s → Inv s)
    (hstep : ∀ s a s', Inv s → ok s a → step s a = some s' → Inv s') :
    ∀ {s}, Reachable step ok init s → Inv s
  | _, .start h => hinit _ h
  | _, .next a hr hok hs => hstep _ a _ (hr.invariant hinit hstep) hok hs

/-- What holds of a state and the actions that are left, and of the next state and the rest, holds at the end. -/
theorem run_induction {P : σ → List α → Prop} (hstep : ∀ s a as s', P s (a :: as) → step s a = some s' → P s' as)
    {as : List α} {s t : σ} (hs : P s as) (h : run step s as = some t) : P t [] := by
  induction as generalizing s with
  | nil =>
    cases h
    exact hs
  | cons a as ih =>
    obtain ⟨s', hs', htail⟩ := Option.bind_eq_some_iff.mp h
    exact ih (hstep s a as s' hs hs') htail

/-- A reachable state extended by a run whose steps meet `ok` is reachable. -/
theorem Reachable.run {as : List α} {s t : σ} (hr : Reachable step ok init s) (hm : StepsMeet step ok s as)
    (h : Lib.run step s as = some t) : Reachable step ok init t := by
  refine (@run_induction _ _ step (fun s as => Reachable step ok init s ∧ StepsMeet step ok s as) ?_ as s t ⟨hr, hm⟩ h).1
  rintro s a as s' ⟨hr, hm⟩ hs
  exact ⟨.next a hr hm.1 hs, hm.2 s' hs⟩

theorem StepsMeet.cons {a : α} {as : List α} {s s' : σ} (hs : step s a = some s') (hok : ok s a)
    (h : StepsMeet step ok s' as) : StepsMeet step ok s (a :: as) := by
  refine ⟨hok, fun t ht => ?_⟩
  rw [hs] at ht
  cases ht
  exact h

/-- A check of the steps decides the condition where it implies it. -/
theorem StepsMeet.of_checks {check : σ → α → Bool} (hcheck : ∀ s a, check s a = true → ok s a) :
    ∀ {s : σ} {as : List α}, runChecks step check s as = true → StepsMeet step ok s as
  | _, [], _ => trivial
  | s, a :: as, h => by
    obtain ⟨ha, has⟩ := Bool.and_eq_true_iff.mp h
    refine ⟨hcheck s a ha, fun s' hs => ?_⟩
    rw [hs] at has
    exact StepsMeet.of_checks hcheck has

/-- A check of the labels alone. -/
theorem StepsMeet.of_all {check : α → Bool} (hcheck : ∀ s a, check a = true → ok s a) :
    ∀ {s : σ} {as : List α}, as.all check = true → StepsMeet step ok s as
  | _, [], _ => trivial
  | s, a :: as, h => by
    obtain ⟨ha, has⟩ := Bool.and_eq_true_iff.mp h
    exact ⟨hcheck s a ha, fun s' _ => StepsMeet.of_all hcheck has⟩

/-- Every run meets `anyStep`. -/
theorem stepsMeet_anyStep : ∀ (s : σ) (as : List α), StepsMeet step anyStep s as
  | _, [] => trivial
  | _, _ :: as => ⟨trivial, fun s' _ => stepsMeet_anyStep s' as⟩

/-- The end of any run from an initial state is reachable. -/
theorem reachable_of_run {as : List α} {s t : σ} (hs : init s) (h : Lib.run step s as = some t) :
    Reachable step anyStep init t :=
  (Reachable.start hs).run (stepsMeet_anyStep s as) h

end rules

/-- The invariant rule of a fold that may fail, for what holds after a first part of the list. -/
theorem foldlM_invariant {ε σ α : Type} {step : σ → α → Except ε σ} (Inv : List α → σ → Prop)
    (hstep : ∀ done x s s', Inv done s → step s x = .ok s' → Inv (done ++ [x]) s') :
    ∀ {l done : List α} {s s' : σ}, Inv done s → l.foldlM step s = .ok s' → Inv (done ++ l) s' := by
  intro l
  induction l with
  | nil =>
    intro done s s' h hrun
    cases hrun
    rw [List.append_nil]
    exact h
  | cons x l ih =>
    intro done s s' h hrun
    rw [List.foldlM_cons] at hrun
    cases hx : step s x with
    | error e => rw [hx] at hrun; cases hrun
    | ok s₁ =>
      rw [hx] at hrun
      have := ih (hstep done x s s₁ h hx) hrun
      rwa [List.append_assoc, List.singleton_append] at this

end Firestone.Lib
