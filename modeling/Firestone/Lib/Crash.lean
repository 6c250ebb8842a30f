import Mathlib.Data.List.Basic
import Mathlib.Tactic.Common

/-!
# Operations that may stop between two writes

An operation is the list of its writes. It may stop before the first, after any, or after the last of them.

* `stops apply s ws` — the states it may stop in.
* `mem_stops_append` — one operation after the other.
* `Script` — an operation that reads the state before each of its writes and may fail.
* `Script.Meets apply p s C Q` — from `s` the script stops in `C` wherever it stops, and ends in `Q` when it succeeds;
  with a rule for each way to build a script.
-/

namespace Firestone.Lib

universe u v w

variable {σ : Type u} {ω : Type v} (apply : σ → ω → σ)

/-- The states between two writes of an operation, with the first and the last. -/
@[grind =] def stops : σ → List ω → List σ
  | s, [] => [s]
  | s, w :: ws => s :: stops (apply s w) ws

section rules

variable {apply} {s t : σ} {w : ω} {ws ws' : List ω}

theorem mem_stops_cons : t ∈ stops apply s (w :: ws) ↔ t = s ∨ t ∈ stops apply (apply s w) ws := List.mem_cons

theorem self_mem_stops : s ∈ stops apply s ws := by
  cases ws with
  | nil => exact List.mem_singleton.mpr rfl
  | cons w ws => exact List.mem_cons_self

/-- Two operations in a row stop where the first does, or where the second does after all of the first. -/
theorem mem_stops_append :
    t ∈ stops apply s (ws ++ ws') ↔ t ∈ stops apply s ws ∨ t ∈ stops apply (ws.foldl apply s) ws' := by
  induction ws generalizing s with
  | nil =>
    simp only [List.nil_append, List.foldl_nil, stops, List.mem_singleton]
    exact ⟨.inr, fun h => h.elim (fun h => h ▸ self_mem_stops) id⟩
  | cons w ws ih => rw [List.cons_append, mem_stops_cons, mem_stops_cons, ih, List.foldl_cons, or_assoc]

theorem take_mem_stops (k : Nat) : (ws.take k).foldl apply s ∈ stops apply s ws := by
  induction ws generalizing s k with
  | nil =>
    rw [List.take_nil]
    exact self_mem_stops
  | cons w ws ih =>
    cases k with
    | zero => exact self_mem_stops
    | succ k => exact mem_stops_cons.mpr (.inr (ih k))

end rules

/-! ## Scripts -/

/-- The writes of an operation that looks at the state on its way, and whether it succeeded. -/
def Script (σ : Type u) (ω : Type v) (ε : Type w) := σ → List ω × Except ε Unit

namespace Script

variable {ε : Type w} {α : Type*}

def done : Script σ ω ε := fun _ => ([], .ok ())

def fail (e : ε) : Script σ ω ε := fun _ => ([], .error e)

def write (w : ω) : Script σ ω ε := fun _ => ([w], .ok ())

/-- The second script starts where the first has ended, unless that failed. -/
def andThen (p q : Script σ ω ε) : Script σ ω ε := fun s =>
  match p s with
  | (ws, .error e) => (ws, .error e)
  | (ws, .ok ()) => (ws ++ (q (ws.foldl apply s)).1, (q (ws.foldl apply s)).2)

def forEach (f : α → Script σ ω ε) : List α → Script σ ω ε
  | [] => done
  | a :: l => andThen apply (f a) (forEach f l)

/-- Wherever the script stops `C` holds, and `Q` when it has succeeded. -/
structure Meets (p : Script σ ω ε) (s : σ) (C Q : σ → Prop) : Prop where
  stops : ∀ t ∈ stops apply s (p s).1, C t
  done : (p s).2 = .ok () → Q ((p s).1.foldl apply s)

section rules

variable {apply} {p q : Script σ ω ε} {s : σ} {C Q R : σ → Prop}

theorem Meets.mono {C' Q' : σ → Prop} (h : Meets apply p s C Q) (hc : ∀ t, C t → C' t) (hq : ∀ t, Q t → Q' t) :
    Meets apply p s C' Q' :=
  ⟨fun t ht => hc t (h.stops t ht), fun hr => hq _ (h.done hr)⟩

/-- Only what the script does in this state counts. -/
theorem Meets.of_eq (h : Meets apply q s C Q) (heq : p s = q s) : Meets apply p s C Q := by
  refine ⟨?_, ?_⟩
  · rw [heq]
    exact h.stops
  · rw [heq]
    exact h.done

theorem meets_done (hc : C s) (hq : Q s) : Meets apply (done : Script σ ω ε) s C Q := by
  refine ⟨fun t ht => ?_, fun _ => hq⟩
  rw [List.mem_singleton.mp ht]
  exact hc

theorem meets_fail {e : ε} (hc : C s) : Meets apply (fail e : Script σ ω ε) s C Q := by
  refine ⟨fun t ht => ?_, fun h => nomatch h⟩
  rw [List.mem_singleton.mp ht]
  exact hc

theorem meets_write {w : ω} (hc : C s) (hc' : C (apply s w)) (hq : Q (apply s w)) :
    Meets apply (write w : Script σ ω ε) s C Q := by
  refine ⟨fun t ht => ?_, fun _ => hq⟩
  rcases mem_stops_cons.mp ht with rfl | ht
  · exact hc
  · rw [List.mem_singleton.mp ht]
    exact hc'

/-- The rule of sequences. -/
theorem Meets.andThen (hp : Meets apply p s C Q) (hq : ∀ t, Q t → Meets apply q t C R) :
    Meets apply (andThen apply p q) s C R := by
  have hrun : p s = ((p s).1, (p s).2) := rfl
  cases hr : (p s).2 with
  | error e =>
    rw [hr] at hrun
    have heq : Script.andThen apply p q s = ((p s).1, .error e) := by rw [Script.andThen, hrun]
    refine ⟨fun t ht => hp.stops t (by rwa [heq] at ht), fun h => ?_⟩
    rw [heq] at h
    cases h
  | ok u =>
    rw [hr] at hrun
    have hq := hq _ (hp.done hr)
    have heq : Script.andThen apply p q s =
        ((p s).1 ++ (q ((p s).1.foldl apply s)).1, (q ((p s).1.foldl apply s)).2) := by rw [Script.andThen, hrun]
    refine ⟨fun t ht => ?_, fun h => ?_⟩
    · rw [heq] at ht
      rcases mem_stops_append.mp ht with ht | ht
      · exact hp.stops t ht
      · exact hq.stops t ht
    · rw [heq] at h ⊢
      rw [List.foldl_append]
      exact hq.done h

/-- The rule of loops: `I l` holds when `l` is left to do. -/
theorem meets_forEach {f : α → Script σ ω ε} (I : List α → σ → Prop) (hcrash : ∀ t, I [] t → C t)
    (hstep : ∀ a l t, I (a :: l) t → Meets apply (f a) t C (I l)) :
    ∀ {l : List α} {s : σ}, I l s → Meets apply (forEach apply f l) s C (I [])
  | [], s, h => meets_done (hcrash s h) h
  | a :: l, s, h => (hstep a l s h).andThen fun _ ht => meets_forEach I hcrash hstep ht

end rules

end Script

end Firestone.Lib
