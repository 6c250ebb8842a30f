import Mathlib.Tactic.Common

/-!
# Drawing against a cap

A consumer takes amounts from a source and checks its total against a cap from time to time, each time with the amount that
it is going to take next. The counter behind the check saturates at `top`.

* `spend` — what is taken, and how many checks are made, under a cap and a bound on the checks.
* `Within` — what is taken between two checks is at most `slack` more than the first of them declares.
* `spend_le_iff` — under every cap no more than the cap and `slack` are taken exactly when the draws are within `slack`.
-/

namespace Firestone.Lib

/-- One step of a consumer: it takes an amount, or checks with the amount it declares to take next. -/
inductive Draw
  | take (n : Nat)
  | check (declared : Nat)
  deriving DecidableEq, Repr

namespace Draw

/-- What a consumer that is never stopped takes. -/
@[grind =] def total : List Draw → Nat
  | [] => 0
  | take n :: ds => n + total ds
  | check _ :: ds => total ds

def checks : List Draw → Nat
  | [] => 0
  | take _ :: ds => checks ds
  | check _ :: ds => checks ds + 1

/-- What is taken after `taken`, and the checks made after `made`, until a check fails. -/
@[grind =] def spend (top cap count : Nat) : Nat → Nat → List Draw → Nat × Nat
  | taken, made, [] => (taken, made)
  | taken, made, take n :: ds => spend top cap count (taken + n) made ds
  | taken, made, check declared :: ds =>
    if count < made + 1 ∨ cap < min (taken + declared) top then (taken, made + 1)
    else spend top cap count taken (made + 1) ds

/-- `since` was taken after a check that declared `declared`; at the next one, and at the end, it is at most `slack` more. -/
@[grind =] def Within (slack : Nat) : Nat → Nat → List Draw → Prop
  | declared, since, [] => since ≤ declared + slack
  | declared, since, take n :: ds => Within slack declared (since + n) ds
  | declared, since, check next :: ds => since ≤ declared + slack ∧ Within slack next 0 ds

/-- What is declared is taken before the next check; `debt` of it is still to come. -/
def Covered : Nat → List Draw → Prop
  | _, [] => True
  | debt, take n :: ds => Covered (debt - n) ds
  | debt, check declared :: ds => debt = 0 ∧ Covered declared ds

section spend

variable {top cap count slack : Nat} {ds : List Draw}

/-- One check at most is made beyond the bound. -/
theorem spend_checks_le {taken made : Nat} (h : made ≤ count) : (spend top cap count taken made ds).2 ≤ count + 1 := by
  induction ds generalizing taken made with
  | nil => exact Nat.le_succ_of_le h
  | cons d ds ih =>
    cases d with
    | take n => exact ih h
    | check declared =>
      rw [spend]
      split
      · exact Nat.succ_le_succ h
      · exact ih (by omega)

/-- The last check that passed has made room for what it declared. -/
theorem spend_le_of_within {declared since base made : Nat} (hwithin : Within slack declared since ds)
    (htotal : cap < top ∨ base + since + total ds ≤ top + slack) (hroom : base + declared ≤ cap ∨ top ≤ cap) :
    (spend top cap count (base + since) made ds).1 ≤ cap + slack := by
  induction ds generalizing declared since base made with
  | nil =>
    simp only [Within] at hwithin
    simp only [total] at htotal
    simp only [spend]
    omega
  | cons d ds ih =>
    cases d with
    | take n =>
      simp only [total] at htotal
      rw [spend, Nat.add_assoc]
      exact ih hwithin (by omega) hroom
    | check next =>
      obtain ⟨hsince, hwithin⟩ := hwithin
      simp only [total] at htotal
      rw [spend]
      split
      · simp only
        omega
      · -- the new check is the last one from here on
        have hnext := @ih next 0 (base + since) (made + 1) hwithin htotal (by omega)
        exact hnext

/-- Under a cap that the counter cannot pass everything is taken. -/
theorem spend_top {taken made : Nat} (h : made + checks ds ≤ count) :
    (spend top top count taken made ds).1 = taken + total ds := by
  induction ds generalizing taken made with
  | nil => rfl
  | cons d ds ih =>
    cases d with
    | take n =>
      rw [spend, ih h, total, Nat.add_assoc]
    | check declared =>
      simp only [checks] at h
      rw [spend, if_neg (by omega), ih (by omega), total]

/-- The cap that the last check just passes shows what is taken after it. -/
theorem within_of_spend_le {declared since base made debt : Nat} (hcovered : Covered debt ds) (hdebt : declared ≤ since + debt)
    (h : ∀ cap count, base + declared ≤ cap → made ≤ count →
      (spend top cap count (base + since) made ds).1 ≤ cap + slack) : Within slack declared since ds := by
  induction ds generalizing declared since base made debt with
  | nil =>
    have hend := h (base + declared) made (Nat.le_refl _) (Nat.le_refl _)
    simp only [spend] at hend
    simp only [Within]
    omega
  | cons d ds ih =>
    cases d with
    | take n =>
      simp only [spend, Nat.add_assoc] at h
      exact ih hcovered (by omega) h
    | check next =>
      obtain ⟨hzero, hcovered⟩ := hcovered
      constructor
      · have hstop := h (base + declared) made (Nat.le_refl _) (Nat.le_refl _)
        rw [spend, if_pos (Or.inl (Nat.lt_succ_self _))] at hstop
        simp only at hstop
        omega
      · refine @ih next 0 (base + since) (made + 1) next hcovered (by omega) fun cap count hcap hcount => ?_
        have hrest := h cap count (by omega) (by omega)
        rw [spend, if_neg (by omega)] at hrest
        exact hrest

/-- Under every cap at most the cap and `slack` are taken exactly when what is taken between two checks is at most `slack`
more than is declared, and all of it at most `slack` more than the counter can hold. -/
theorem spend_le_iff (hcovered : Covered 0 ds) :
    (∀ cap count, (spend top cap count 0 0 ds).1 ≤ cap + slack) ↔ Within slack 0 0 ds ∧ total ds ≤ top + slack := by
  constructor
  · intro h
    have hwithin : Within slack 0 0 ds :=
      @within_of_spend_le top slack ds 0 0 0 0 0 hcovered (Nat.le_refl _) fun cap count _ _ => h cap count
    refine ⟨hwithin, ?_⟩
    have htop := h top (checks ds)
    rw [spend_top (Nat.le_of_eq (Nat.zero_add _)), Nat.zero_add] at htop
    exact htop
  · rintro ⟨hwithin, htotal⟩ cap count
    exact @spend_le_of_within top cap count slack ds 0 0 0 0 hwithin (Or.inr (by omega)) (Or.inl (Nat.zero_le _))

end spend

end Draw

end Firestone.Lib
