import Mathlib.Data.List.Basic
import Mathlib.Tactic.Common

/-!
# Lists cut after a symbol

`endedPieces x` cuts a list after every `x`: the pieces of a text are its lines, each with its newline, and what follows the last
newline is a line of its own when there is any.

* `endedPieces_append` — a cut after an `x` cuts the pieces.
* `lastPieces_of_append`, `lastPieces_ended` — the last pieces are what follows an `x`.
* `lt_length_iff` — an end of a list has more than `n` pieces exactly when it is longer than the last `n` pieces.
-/

namespace Firestone.Lib

variable {α : Type} [DecidableEq α] {x : α}

/-- The pieces of a list, cut after every `x`. -/
@[grind =] def endedPieces (x : α) : List α → List (List α)
  | [] => []
  | a :: as =>
    if a = x then [a] :: endedPieces x as
    else match endedPieces x as with
      | [] => [[a]]
      | p :: ps => (a :: p) :: ps

/-- The last `n` pieces, joined. -/
def lastPieces (x : α) (n : Nat) (as : List α) : List α :=
  ((endedPieces x as).drop ((endedPieces x as).length - n)).flatten

@[simp] theorem endedPieces_nil : endedPieces x [] = [] := rfl

@[simp] theorem endedPieces_cons_self (as : List α) : endedPieces x (x :: as) = [x] :: endedPieces x as := by
  simp [endedPieces]

theorem flatten_endedPieces (as : List α) : (endedPieces x as).flatten = as := by
  induction as with
  | nil => rfl
  | cons a as ih =>
    rw [endedPieces]
    split
    · rw [List.flatten_cons, ih, List.singleton_append]
    · split <;> rename_i h <;> rw [h] at ih
      · rw [← ih]; rfl
      · rw [← ih]; rfl

@[simp] theorem endedPieces_eq_nil {as : List α} : endedPieces x as = [] ↔ as = [] := by
  refine ⟨fun h => ?_, fun h => by rw [h]; rfl⟩
  rw [← flatten_endedPieces (x := x) as, h, List.flatten_nil]

theorem endedPieces_append (as bs : List α) :
    endedPieces x (as ++ x :: bs) = endedPieces x (as ++ [x]) ++ endedPieces x bs := by
  induction as with
  | nil => simp
  | cons a as ih =>
    rw [List.cons_append, List.cons_append, endedPieces, endedPieces, ih]
    split
    · rfl
    · cases h : endedPieces x (as ++ [x]) with
      | nil => simp at h
      | cons p ps => rfl

/-- A list that ends in `x` may be followed by anything without a change to its pieces. -/
theorem endedPieces_append_of_getLast {as : List α} (h : as.getLast? = some x) (bs : List α) :
    endedPieces x (as ++ bs) = endedPieces x as ++ endedPieces x bs := by
  obtain ⟨as, rfl⟩ := List.getLast?_eq_some_iff.mp h
  rw [List.append_assoc, List.singleton_append, endedPieces_append]

/-- The number of pieces. -/
theorem length_endedPieces (as : List α) :
    (endedPieces x as).length = as.count x + if as = [] ∨ as.getLast? = some x then 0 else 1 := by
  induction as with
  | nil => rfl
  | cons a as ih =>
    rw [endedPieces]
    split
    · next h =>
      subst h
      rw [List.length_cons, ih, List.count_cons_self]
      cases as with
      | nil => simp
      | cons b bs => simp only [List.getLast?_cons_cons, reduceCtorEq, false_or]; omega
    · next h =>
      rw [List.count_cons_of_ne h]
      cases as with
      | nil => simp [h]
      | cons b bs =>
        simp only [List.getLast?_cons_cons, reduceCtorEq, false_or] at ih ⊢
        cases hp : endedPieces x (b :: bs) with
        | nil => simp at hp
        | cons p ps => rw [hp] at ih; exact ih

/-- Taking pieces off the front leaves the pieces of the rest. -/
theorem endedPieces_of_append {as : List α} {ps qs : List (List α)} (h : endedPieces x as = ps ++ qs) :
    endedPieces x qs.flatten = qs := by
  induction as generalizing ps with
  | nil =>
    obtain ⟨rfl, rfl⟩ := List.append_eq_nil_iff.mp h.symm
    rfl
  | cons a as ih =>
    cases ps with
    | nil =>
      rw [List.nil_append] at h
      rw [← h, flatten_endedPieces]
    | cons p ps =>
      rw [endedPieces] at h
      split at h
      · exact ih (List.cons.inj h).2
      · split at h
        · obtain ⟨rfl, rfl⟩ := List.append_eq_nil_iff.mp (List.cons.inj h).2.symm
          rfl
        · next r rs hcons =>
          have hcut : endedPieces x as = (r :: ps) ++ qs := by rw [hcons, List.cons_append, (List.cons.inj h).2]; rfl
          exact ih hcut

/-- A piece that others follow ends in `x`. -/
theorem getLast_of_endedPieces {as : List α} {ps qs : List (List α)} (h : endedPieces x as = ps ++ qs) (hp : ps ≠ [])
    (hq : qs ≠ []) : ps.flatten.getLast? = some x := by
  induction as generalizing ps with
  | nil => exact absurd (List.append_eq_nil_iff.mp h.symm).1 hp
  | cons a as ih =>
    cases ps with
    | nil => exact absurd rfl hp
    | cons p ps =>
      rw [endedPieces] at h
      split at h
      · next ha =>
        obtain ⟨hpa, hrest⟩ := List.cons.inj h
        cases ps with
        | nil => rw [← hpa, ha]; rfl
        | cons q ps =>
          have hlast := ih hrest (List.cons_ne_nil q ps)
          rw [List.flatten_cons, List.getLast?_append, hlast]
          rfl
      · split at h
        · exact absurd (List.append_eq_nil_iff.mp (List.cons.inj h).2.symm).2 hq
        · next r rs hcons =>
          obtain ⟨hpa, hrest⟩ := List.cons.inj h
          have hcut : endedPieces x as = (r :: ps) ++ qs := by rw [hcons, hrest]; rfl
          have hlast := ih hcut (List.cons_ne_nil r ps)
          rw [List.flatten_cons] at hlast ⊢
          rw [← hpa, List.cons_append, List.getLast?_cons, hlast]
          rfl

/-! ## The last pieces -/

theorem lastPieces_suffix (n : Nat) (as : List α) : lastPieces x n as <:+ as := by
  refine ⟨((endedPieces x as).take ((endedPieces x as).length - n)).flatten, ?_⟩
  rw [lastPieces, ← List.flatten_append, List.take_append_drop, flatten_endedPieces]

@[simp] theorem lastPieces_zero (as : List α) : lastPieces x 0 as = [] := by simp [lastPieces]

/-- The last pieces of a list are the pieces of what they join to. -/
theorem endedPieces_lastPieces (n : Nat) (as : List α) :
    endedPieces x (lastPieces x n as) = (endedPieces x as).drop ((endedPieces x as).length - n) :=
  endedPieces_of_append (List.take_append_drop ((endedPieces x as).length - n) (endedPieces x as)).symm

theorem length_endedPieces_lastPieces (n : Nat) (as : List α) :
    (endedPieces x (lastPieces x n as)).length = min n (endedPieces x as).length := by
  rw [endedPieces_lastPieces, List.length_drop]
  omega

theorem lastPieces_of_length_le {n : Nat} {as : List α} (h : (endedPieces x as).length ≤ n) : lastPieces x n as = as := by
  rw [lastPieces, Nat.sub_eq_zero_of_le h, List.drop_zero, flatten_endedPieces]

/-- What follows an `x` is as many last pieces as it has. -/
theorem lastPieces_of_append {n : Nat} {as bs : List α} (h : as.getLast? = some x) (hn : (endedPieces x bs).length = n) :
    lastPieces x n (as ++ bs) = bs := by
  rw [lastPieces, endedPieces_append_of_getLast h, List.length_append, hn, Nat.add_sub_cancel, List.drop_left,
    flatten_endedPieces]

/-- When there are more pieces, the last ones follow an `x`. -/
theorem lastPieces_ended {n : Nat} {as : List α} (hn : n ≠ 0) (h : n < (endedPieces x as).length) :
    ∃ p l, as = p ++ l ∧ p.getLast? = some x ∧ (endedPieces x l).length = n := by
  obtain ⟨k, hk⟩ := Nat.exists_eq_add_of_lt h
  have hcut : endedPieces x as = (endedPieces x as).take (k + 1) ++ (endedPieces x as).drop (k + 1) :=
    (List.take_append_drop ..).symm
  refine ⟨_, ((endedPieces x as).drop (k + 1)).flatten, ?_, getLast_of_endedPieces hcut ?_ ?_, ?_⟩
  · rw [← List.flatten_append, ← hcut, flatten_endedPieces]
  · exact List.ne_nil_of_length_pos (by rw [List.length_take]; omega)
  · exact List.ne_nil_of_length_pos (by rw [List.length_drop]; omega)
  · rw [endedPieces_of_append hcut, List.length_drop]
    omega

/-- The last pieces of an end that has more of them. -/
theorem lastPieces_append {n : Nat} {as bs : List α} (hn : n ≠ 0) (h : n < (endedPieces x bs).length) :
    lastPieces x n (as ++ bs) = lastPieces x n bs ∧ (lastPieces x n bs).length < bs.length := by
  obtain ⟨p, l, rfl, hlast, hlen⟩ := lastPieces_ended hn h
  have hp : p ≠ [] := by rintro rfl; cases hlast
  have hcut : (as ++ p).getLast? = some x := by rw [List.getLast?_append, hlast]; rfl
  have := List.length_pos_of_ne_nil hp
  rw [← List.append_assoc, lastPieces_of_append hcut hlen, lastPieces_of_append hlast hlen, List.length_append]
  exact ⟨rfl, by omega⟩

/-- An end of a list has more than `n` pieces exactly when it is longer than the last `n` pieces of the list. -/
theorem lt_length_iff {n : Nat} {as bs : List α} (hn : n ≠ 0) (ha : as ≠ []) :
    n < (endedPieces x bs).length ↔ (lastPieces x n (as ++ bs)).length < bs.length := by
  constructor
  · intro h
    obtain ⟨hsame, hlt⟩ := @lastPieces_append _ _ x n as bs hn h
    rwa [hsame]
  · intro h
    have := List.length_pos_of_ne_nil ha
    rcases Nat.lt_or_ge n (endedPieces x (as ++ bs)).length with hmore | hall
    · obtain ⟨p, l, hsplit, hlast, hlen⟩ := lastPieces_ended hn hmore
      rw [hsplit, lastPieces_of_append hlast hlen] at h
      obtain ⟨q, rfl, rfl⟩ | ⟨q, rfl, rfl⟩ := List.append_eq_append_iff.mp hsplit
      · -- the cut lies in `bs`
        have hq : q ≠ [] := by rintro rfl; exact absurd h (Nat.lt_irrefl _)
        have hcut : q.getLast? = some x := by
          rw [List.getLast?_append_of_ne_nil _ hq] at hlast
          exact hlast
        have := List.length_pos_of_ne_nil (mt (endedPieces_eq_nil (x := x)).mp hq)
        rw [endedPieces_append_of_getLast hcut, List.length_append, hlen]
        omega
      · rw [List.length_append] at h
        omega
    · rw [lastPieces_of_length_le hall, List.length_append] at h
      omega

end Firestone.Lib
