import Firestone.Lib.Json
import Mathlib.Data.List.Sort

/-!
# The order of keys

A decoder may keep the members of an object in any order. Two values are the same when they differ in nothing but that.

* `Json.Everywhere` — a condition on the members of every object in a value. `Json.Distinct`, `Json.Ordered`.
* `Json.SameValue` — equal up to the order of keys.
* `Json.sort` — every object in key order. `sort_same`, `sort_ordered`.
* `sort_congr` — values that are the same are sorted into one value.
* `SameValue.eq` — ordered values that are the same are equal.
-/

namespace Firestone.Lib

/-! ## Keys without duplicates -/

section lookup

variable {κ β : Type*} [BEq κ] [LawfulBEq κ] {k : κ} {v : β} {l l' : List (κ × β)}

/-- The value of a key is that of its only member. -/
theorem lookup_eq_some_iff_mem : ∀ {l : List (κ × β)}, (l.map Prod.fst).Nodup → (l.lookup k = some v ↔ (k, v) ∈ l)
  | [], _ => by simp
  | (k', v') :: rest, h => by
    obtain ⟨hnew, hrest⟩ := List.nodup_cons.mp h
    rw [List.lookup_cons, List.mem_cons]
    by_cases hk : k = k'
    · subst hk
      have hnot : (k, v) ∉ rest := fun hm => hnew (List.mem_map.mpr ⟨(k, v), hm, rfl⟩)
      simp [hnot, eq_comm]
    · rw [beq_eq_false_iff_ne.mpr hk]
      simp [hk, lookup_eq_some_iff_mem hrest]

theorem lookup_perm (h : l.Perm l') (hl : (l.map Prod.fst).Nodup) : l.lookup k = l'.lookup k := by
  have hl' : (l'.map Prod.fst).Nodup := (h.map Prod.fst).nodup_iff.mp hl
  refine Option.ext fun v => ?_
  rw [lookup_eq_some_iff_mem hl, lookup_eq_some_iff_mem hl', h.mem_iff]

end lookup

theorem MembersSorted.keys_nodup {κ β : Type*} [LinearOrder κ] {l : List (κ × β)} (h : MembersSorted l) :
    (l.map Prod.fst).Nodup := List.pairwise_map.mpr (h.imp ne_of_lt)

namespace Json

/-! ## Conditions on objects -/

/-- Neither an array nor an object. -/
def isAtom : Json → Bool
  | .arr _ | .obj _ => false
  | _ => true

inductive Everywhere (P : List (String × Json) → Prop) : Json → Prop
  | atom {v} : v.isAtom = true → Everywhere P v
  | arr {items} : (∀ x ∈ items, Everywhere P x) → Everywhere P (.arr items)
  | obj {members} : P members → (∀ x ∈ members, Everywhere P x.2) → Everywhere P (.obj members)

/-- The keys of each object are different. -/
abbrev Distinct : Json → Prop := Everywhere fun members => (members.map Prod.fst).Nodup

/-- The keys of each object increase. -/
abbrev Ordered : Json → Prop := Everywhere MembersSorted

section Everywhere

variable {P Q : List (String × Json) → Prop} {v : Json} {items : List Json} {members : List (String × Json)}

theorem Everywhere.imp (hPQ : ∀ members, P members → Q members) (h : Everywhere P v) : Everywhere Q v := by
  induction h with
  | atom h => exact .atom h
  | arr _ ih => exact .arr ih
  | obj h _ ih => exact .obj (hPQ _ h) ih

theorem Ordered.distinct (h : Ordered v) : Distinct v := h.imp fun _ => MembersSorted.keys_nodup

theorem everywhere_arr : Everywhere P (.arr items) ↔ ∀ x ∈ items, Everywhere P x := by
  constructor
  · intro h
    cases h with
    | atom h => cases h
    | arr h => exact h
  · exact .arr

theorem everywhere_obj : Everywhere P (.obj members) ↔ P members ∧ ∀ x ∈ members, Everywhere P x.2 := by
  constructor
  · intro h
    cases h with
    | atom h => cases h
    | obj h hall => exact ⟨h, hall⟩
  · exact fun h => .obj h.1 h.2

theorem Everywhere.lookup (h : Everywhere P (.obj members)) {k : String} {x : Json} (hx : members.lookup k = some x) :
    Everywhere P x := (everywhere_obj.mp h).2 (k, x) (mem_of_lookup hx)

end Everywhere

/-! ## Equality up to the order of keys -/

inductive SameValue : Json → Json → Prop
  | atom {v} : v.isAtom = true → SameValue v v
  | arr {xs ys} : xs.length = ys.length → (∀ (i : Nat) x y, xs[i]? = some x → ys[i]? = some y → SameValue x y) →
      SameValue (.arr xs) (.arr ys)
  | obj {xs ys} : (∀ k, (xs.lookup k).isSome = (ys.lookup k).isSome) →
      (∀ k x y, xs.lookup k = some x → ys.lookup k = some y → SameValue x y) → SameValue (.obj xs) (.obj ys)

/-! ## Sorting -/

mutual

/-- The members of each object in key order. -/
@[grind =] def sort : Json → Json
  | .obj members => .obj ((sortMembers members).mergeSort fun x y => x.1 ≤ y.1)
  | .arr items => .arr (sortItems items)
  | .null => .null
  | .bool b => .bool b
  | .num n => .num n
  | .str s => .str s

@[grind =] def sortItems : List Json → List Json
  | [] => []
  | x :: xs => x.sort :: sortItems xs

@[grind =] def sortMembers : List (String × Json) → List (String × Json)
  | [] => []
  | (k, x) :: xs => (k, x.sort) :: sortMembers xs

end

theorem sortItems_eq_map : ∀ items : List Json, sortItems items = items.map sort
  | [] => rfl
  | x :: xs => by rw [sortItems, sortItems_eq_map xs, List.map_cons]

theorem sortMembers_eq_map : ∀ members : List (String × Json), sortMembers members = members.map fun x => (x.1, x.2.sort)
  | [] => rfl
  | (k, x) :: xs => by rw [sortMembers, sortMembers_eq_map xs, List.map_cons]

theorem lookup_sortMembers (k : String) : ∀ members : List (String × Json),
    (sortMembers members).lookup k = (members.lookup k).map sort
  | [] => rfl
  | (k', x) :: xs => by
    rw [sortMembers, List.lookup_cons, List.lookup_cons]
    split
    · rfl
    · exact lookup_sortMembers k xs

theorem sort_atom {v : Json} (h : v.isAtom = true) : v.sort = v := by
  cases v with
  | arr items => cases h
  | obj members => cases h
  | _ => rfl

section Sorting

variable {v w : Json} {members : List (String × Json)}

/-- The members of a sorted object. -/
theorem perm_sort (members : List (String × Json)) :
    ((sortMembers members).mergeSort fun x y => x.1 ≤ y.1).Perm (sortMembers members) := List.mergeSort_perm _ _

theorem keys_sortMembers (members : List (String × Json)) : (sortMembers members).map Prod.fst = members.map Prod.fst := by
  rw [sortMembers_eq_map, List.map_map]
  rfl

theorem lookup_sort (h : (members.map Prod.fst).Nodup) (k : String) :
    ((sortMembers members).mergeSort fun x y => x.1 ≤ y.1).lookup k = (members.lookup k).map sort := by
  have hkeys : ((sortMembers members).map Prod.fst).Nodup := by rwa [keys_sortMembers]
  rw [← lookup_perm (perm_sort members).symm hkeys, lookup_sortMembers]

theorem membersSorted_sort (h : (members.map Prod.fst).Nodup) :
    MembersSorted ((sortMembers members).mergeSort fun x y => x.1 ≤ y.1) := by
  have hle : ((sortMembers members).mergeSort fun x y => x.1 ≤ y.1).Pairwise fun x y => decide (x.1 ≤ y.1) = true :=
    List.pairwise_mergeSort (fun a b c hab hbc => by simp only [decide_eq_true_eq] at *; exact le_trans hab hbc)
      (fun a b => by simp only [Bool.or_eq_true, decide_eq_true_eq]; exact le_total a.1 b.1) _
  have hne : ((sortMembers members).mergeSort fun x y => x.1 ≤ y.1).Pairwise fun x y => x.1 ≠ y.1 := by
    rw [← List.pairwise_map (R := (· ≠ ·))]
    refine ((perm_sort members).map Prod.fst).nodup_iff.mpr ?_
    rwa [keys_sortMembers]
  exact hle.imp₂ (fun _ _ hle hne => lt_of_le_of_ne (of_decide_eq_true hle) hne) hne

/-- Sorting changes the order of keys only. -/
theorem sort_same (h : Distinct v) : SameValue v v.sort := by
  induction h with
  | atom h =>
    rw [sort_atom h]
    exact .atom h
  | @arr items _ ih =>
    rw [sort, sortItems_eq_map]
    refine .arr (by rw [List.length_map]) fun i x y hx hy => ?_
    rw [List.getElem?_map, hx] at hy
    cases hy
    exact ih x (List.mem_of_getElem? hx)
  | @obj members hkeys _ ih =>
    rw [sort]
    refine .obj (fun k => ?_) fun k x y hx hy => ?_
    · rw [lookup_sort hkeys, Option.isSome_map]
    · rw [lookup_sort hkeys, hx] at hy
      cases hy
      exact ih (k, x) (mem_of_lookup hx)

theorem sort_ordered (h : Distinct v) : Ordered v.sort := by
  induction h with
  | atom h =>
    rw [sort_atom h]
    exact .atom h
  | @arr items _ ih =>
    rw [sort, sortItems_eq_map]
    exact .arr (List.forall_mem_map.mpr ih)
  | @obj members hkeys _ ih =>
    rw [sort]
    refine .obj (membersSorted_sort hkeys) fun x hx => ?_
    rw [(perm_sort members).mem_iff, sortMembers_eq_map] at hx
    obtain ⟨y, hy, rfl⟩ := List.mem_map.mp hx
    exact ih y hy

/-- Ordered values that differ in the order of keys only do not differ. -/
theorem SameValue.eq (h : SameValue v w) (hv : Ordered v) (hw : Ordered w) : v = w := by
  induction h with
  | atom _ => rfl
  | @arr xs ys hlength _ ih =>
    have hv := everywhere_arr.mp hv
    have hw := everywhere_arr.mp hw
    congr 1
    refine List.ext_getElem? fun i => ?_
    by_cases hi : i < xs.length
    · have hx : xs[i]? = some xs[i] := List.getElem?_eq_getElem hi
      have hi' : i < ys.length := hlength ▸ hi
      have hy : ys[i]? = some ys[i] := List.getElem?_eq_getElem hi'
      rw [hx, hy, ih i _ _ hx hy (hv _ (List.getElem_mem hi)) (hw _ (List.getElem_mem _))]
    · rw [List.getElem?_eq_none (Nat.not_lt.mp hi), List.getElem?_eq_none (hlength ▸ Nat.not_lt.mp hi)]
  | @obj xs ys hkeys _ ih =>
    congr 1
    refine (everywhere_obj.mp hv).1.ext (everywhere_obj.mp hw).1 fun k => ?_
    have hk := hkeys k
    cases hx : xs.lookup k with
    | none =>
      rw [hx] at hk
      exact (Option.isSome_eq_false_iff.mp hk.symm |> Option.isNone_iff_eq_none.mp).symm
    | some x =>
      rw [hx] at hk
      obtain ⟨y, hy⟩ := Option.isSome_iff_exists.mp hk.symm
      rw [hy, ih k x y hx hy (hv.lookup hx) (hw.lookup hy)]

theorem SameValue.symm (h : SameValue v w) : SameValue w v := by
  induction h with
  | atom h => exact .atom h
  | arr hlength _ ih => exact .arr hlength.symm fun i x y hx hy => ih i y x hy hx
  | obj hkeys _ ih => exact .obj (fun k => (hkeys k).symm) fun k x y hx hy => ih k y x hy hx

/-- Values that are the same are sorted into the same value. -/
theorem sort_congr (h : SameValue v w) (hv : Distinct v) (hw : Distinct w) : v.sort = w.sort := by
  have hsame : SameValue v.sort w.sort := by
    induction h with
    | @atom v h =>
      rw [sort_atom h]
      exact .atom h
    | @arr xs ys hlength _ ih =>
      have hv := everywhere_arr.mp hv
      have hw := everywhere_arr.mp hw
      rw [sort, sort, sortItems_eq_map, sortItems_eq_map]
      refine .arr (by rw [List.length_map, List.length_map, hlength]) fun i x y hx hy => ?_
      rw [List.getElem?_map] at hx hy
      obtain ⟨x', hx', rfl⟩ := Option.map_eq_some_iff.mp hx
      obtain ⟨y', hy', rfl⟩ := Option.map_eq_some_iff.mp hy
      exact ih i x' y' hx' hy' (hv x' (List.mem_of_getElem? hx')) (hw y' (List.mem_of_getElem? hy'))
    | @obj xs ys hkeys _ ih =>
      rw [sort, sort]
      refine .obj (fun k => ?_) fun k x y hx hy => ?_
      · rw [lookup_sort (everywhere_obj.mp hv).1, lookup_sort (everywhere_obj.mp hw).1, Option.isSome_map,
          Option.isSome_map, hkeys k]
      · rw [lookup_sort (everywhere_obj.mp hv).1] at hx
        rw [lookup_sort (everywhere_obj.mp hw).1] at hy
        obtain ⟨x', hx', rfl⟩ := Option.map_eq_some_iff.mp hx
        obtain ⟨y', hy', rfl⟩ := Option.map_eq_some_iff.mp hy
        exact ih k x' y' hx' hy' (hv.lookup hx') (hw.lookup hy')
  exact hsame.eq (sort_ordered hv) (sort_ordered hw)

end Sorting

end Json

end Firestone.Lib
