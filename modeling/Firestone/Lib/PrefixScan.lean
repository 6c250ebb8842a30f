import Mathlib.Data.List.Basic
import Mathlib.Tactic.Common

/-!
# Scanning a sorted map for the keys below a stem

A map ordered by a lexicographic key order keeps the keys that extend one stem together, so the range scan "start at
the stem, stop at the first key that does not extend it" finds exactly those keys:

* `stem_convex`: a key between a stem and an extension of the stem extends the stem;
* `scan_eq_filter`: on a sorted list the scan is a filter;
* `mem_scanFrom`: on a `TreeMap` the scan lists exactly the bindings whose key extends the stem;
* `getElem?_eraseAll`: lookups after erasing a list of keys.
-/

namespace Firestone.Lib

section Stems

variable {α : Type} [Ord α] [Std.LawfulEqOrd α]

/-- A stem is not above its extensions. -/
theorem compare_stem_ne_gt : ∀ {s k : List α}, s <+: k → compare s k ≠ .gt
  | [], [], _ => by simp
  | [], _ :: _, _ => by simp [List.compare_nil_cons]
  | x :: s, [], h => by simp at h
  | x :: s, y :: k, h => by
    obtain ⟨rfl, h'⟩ := List.cons_prefix_cons.mp h
    have hx : compare x x = .eq := Std.ReflCmp.compare_self
    rw [List.compare_cons_cons, hx]
    exact compare_stem_ne_gt h'

/-- Every key between a stem and one of its extensions extends the stem. -/
theorem stem_convex : ∀ {s a b : List α}, compare a s ≠ .lt → compare a b = .lt → s <+: b → s <+: a
  | [], _, _, _, _, _ => List.nil_prefix
  | x :: s, [], _, h, _, _ => absurd List.compare_nil_cons h
  | x :: s, y :: a, [], _, _, hb => by simp at hb
  | x :: s, y :: a, z :: b, hs, hab, hb => by
    obtain ⟨rfl, hb'⟩ := List.cons_prefix_cons.mp hb
    rw [List.compare_cons_cons] at hs hab
    cases hyx : compare y x with
    | lt => simp [hyx] at hs
    | gt => simp [hyx] at hab
    | eq =>
      rw [hyx] at hs hab
      obtain rfl := Std.LawfulEqCmp.compare_eq_iff_eq.mp hyx
      exact List.cons_prefix_cons.mpr ⟨rfl, stem_convex (s := s) hs hab hb'⟩

end Stems

section Scan

variable {α β : Type} [Ord α] [DecidableEq α]

/-- The bindings a range scan from `stem` visits before the first key that does not extend it. -/
def scan (stem : List α) (l : List (List α × β)) : List (List α × β) :=
  (l.dropWhile fun e => compare e.1 stem == .lt).takeWhile fun e => stem.isPrefixOf e.1

variable [Std.LawfulEqOrd α]

/-- Past the stem, the keys that extend it come first. -/
theorem takeWhile_eq_filter (stem : List α) : ∀ {l : List (List α × β)},
    l.Pairwise (fun a b => compare a.1 b.1 = .lt) → (∀ e ∈ l, compare e.1 stem ≠ .lt) →
    l.takeWhile (fun e => stem.isPrefixOf e.1) = l.filter fun e => stem.isPrefixOf e.1
  | [], _, _ => rfl
  | e :: l, hl, hs => by
    obtain ⟨he, hl⟩ := List.pairwise_cons.mp hl
    by_cases hp : stem.isPrefixOf e.1 = true
    · rw [List.takeWhile_cons_of_pos (a := e) hp, List.filter_cons_of_pos (a := e) hp,
        takeWhile_eq_filter stem hl fun e' h' => hs e' (List.mem_cons_of_mem _ h')]
    · -- the first key that leaves the stem is below every later key, so none of these can return to it
      rw [List.takeWhile_cons_of_neg (a := e) hp, List.filter_cons_of_neg (a := e) hp, eq_comm, List.filter_eq_nil_iff]
      intro e' h' hp'
      rw [ List.isPrefixOf_iff_prefix] at hp hp'
      exact hp (stem_convex (hs e List.mem_cons_self) (he e' h') hp')

variable [Std.TransOrd α]

/-- On a sorted list the scan selects every key that extends the stem. -/
theorem scan_eq_filter (stem : List α) : ∀ {l : List (List α × β)},
    l.Pairwise (fun a b => compare a.1 b.1 = .lt) → scan stem l = l.filter fun e => stem.isPrefixOf e.1
  | [], _ => rfl
  | e :: l, hl => by
    obtain ⟨he, hl'⟩ := List.pairwise_cons.mp hl
    unfold scan
    by_cases hlt : compare e.1 stem = .lt
    · have hp : ¬stem.isPrefixOf e.1 = true := by
        rw [ List.isPrefixOf_iff_prefix]
        exact fun h => compare_stem_ne_gt h (Std.OrientedCmp.gt_of_lt hlt)
      rw [List.dropWhile_cons_of_pos (by simpa using hlt), List.filter_cons_of_neg (a := e) hp]
      exact scan_eq_filter stem hl'
    · rw [List.dropWhile_cons_of_neg (by simpa using hlt)]
      refine takeWhile_eq_filter stem hl fun e' h' => ?_
      rcases List.mem_cons.mp h' with rfl | h'
      · exact hlt
      · exact fun h => hlt (Std.TransCmp.lt_trans (he e' h') h)

/-- The range scan of a map from `stem`. -/
def scanFrom (m : Std.TreeMap (List α) β) (stem : List α) : List (List α × β) := scan stem m.toList

/-- The scan lists exactly the bindings whose key extends the stem. -/
theorem mem_scanFrom {m : Std.TreeMap (List α) β} {stem k : List α} {v : β} :
    (k, v) ∈ scanFrom m stem ↔ m[k]? = some v ∧ stem <+: k := by
  rw [scanFrom, scan_eq_filter stem Std.TreeMap.ordered_keys_toList, List.mem_filter,
    Std.TreeMap.mem_toList_iff_getElem?_eq_some, List.isPrefixOf_iff_prefix]

end Scan

section Erase

variable {κ β : Type} [Ord κ] [Std.TransOrd κ] [Std.LawfulEqOrd κ]

/-- Erases every listed key. -/
def eraseAll (m : Std.TreeMap κ β) (ks : List κ) : Std.TreeMap κ β := ks.foldl (fun m k => m.erase k) m

/-- Erased keys are gone, every other key is kept. -/
theorem getElem?_eraseAll (q : κ) : ∀ (ks : List κ) (m : Std.TreeMap κ β),
    (q ∈ ks → (eraseAll m ks)[q]? = none) ∧ (q ∉ ks → (eraseAll m ks)[q]? = m[q]?)
  | [], m => by simp [eraseAll]
  | k :: ks, m => by
    have ih := getElem?_eraseAll q ks (m.erase k)
    show (_ → (eraseAll (m.erase k) ks)[q]? = none) ∧ (_ → (eraseAll (m.erase k) ks)[q]? = m[q]?)
    by_cases hq : q ∈ ks
    · exact ⟨fun _ => ih.1 hq, fun h => absurd (List.mem_cons_of_mem _ hq) h⟩
    · rw [ih.2 hq, Std.TreeMap.getElem?_erase]
      have hk : compare k q = .eq ↔ q = k := Std.LawfulEqCmp.compare_eq_iff_eq.trans eq_comm
      simp only [List.mem_cons, hq, or_false]
      exact ⟨fun h => if_pos (hk.mpr h), fun h => if_neg fun e => h (hk.mp e)⟩

end Erase

end Firestone.Lib
