import Firestone.Lib.Members
import Mathlib.Data.String.Basic

/-!
# JSON values

Values as a decoder with ordered maps builds them: the members of an object are in key order, a number is a
non-negative integer, a negative integer or a float, and these are different numbers.

* `Json.fields` — an object from its fields, absent ones left out.
* `Json.memberAt` — the member of a value at a key, if the value is an object.
* `Json.reload` — what decoding the encoded value gives back: floats may be read back differently, all else is kept.
-/

namespace Firestone.Lib

/-- JSON numbers, kept apart by how they were written. -/
inductive Number
  | posInt (n : Nat)
  | negInt (n : Int)
  | float (bits : UInt64)
  deriving DecidableEq, Repr

inductive Json
  | null
  | bool (b : Bool)
  | num (n : Number)
  | str (s : String)
  | arr (items : List Json)
  | obj (members : List (String × Json))
  deriving Repr

namespace Json

/-! ## Equality -/

mutual

def beq : Json → Json → Bool
  | .null, .null => true
  | .bool a, .bool b => a == b
  | .num a, .num b => a == b
  | .str a, .str b => a == b
  | .arr xs, .arr ys => beqItems xs ys
  | .obj xs, .obj ys => beqMembers xs ys
  | _, _ => false

def beqItems : List Json → List Json → Bool
  | [], [] => true
  | x :: xs, y :: ys => x.beq y && beqItems xs ys
  | _, _ => false

def beqMembers : List (String × Json) → List (String × Json) → Bool
  | [], [] => true
  | (k, x) :: xs, (l, y) :: ys => k == l && x.beq y && beqMembers xs ys
  | _, _ => false

end

mutual

theorem beq_iff : ∀ a b : Json, a.beq b = true ↔ a = b
  | .null, b => by cases b <;> simp [beq]
  | .bool _, b => by cases b <;> simp [beq]
  | .num _, b => by cases b <;> simp [beq]
  | .str _, b => by cases b <;> simp [beq]
  | .arr xs, b => by
    cases b with
    | arr ys => simp [beq, beqItems_iff xs ys]
    | _ => simp [beq]
  | .obj xs, b => by
    cases b with
    | obj ys => simp [beq, beqMembers_iff xs ys]
    | _ => simp [beq]

theorem beqItems_iff : ∀ xs ys : List Json, beqItems xs ys = true ↔ xs = ys
  | [], ys => by cases ys <;> simp [beqItems]
  | x :: xs, ys => by
    cases ys with
    | nil => simp [beqItems]
    | cons y ys => simp [beqItems, beq_iff x y, beqItems_iff xs ys]

theorem beqMembers_iff : ∀ xs ys : List (String × Json), beqMembers xs ys = true ↔ xs = ys
  | [], ys => by cases ys <;> simp [beqMembers]
  | (k, x) :: xs, ys => by
    cases ys with
    | nil => simp [beqMembers]
    | cons y ys =>
      obtain ⟨l, y⟩ := y
      simp [beqMembers, beq_iff x y, beqMembers_iff xs ys]

end

instance : DecidableEq Json := fun a b => decidable_of_iff _ (beq_iff a b)

/-! ## Reading -/

def asU64 : Json → Option Nat
  | .num (.posInt n) => some n
  | _ => none

/-- The members of an object; no other value has any. -/
def members : Json → List (String × Json)
  | .obj ms => ms
  | _ => []

def isObject : Json → Bool
  | .obj _ => true
  | _ => false

/-- The member at a key of a value that may be missing or no object. -/
def memberAt (k : String) (x : Option Json) : Option Json := x.bind fun v => v.members.lookup k

/-- One step of a pointer: an object takes an index as a key. -/
inductive Token
  | key (k : String)
  | index (n : Nat)
  deriving DecidableEq, Repr

@[grind =] def pointer : Json → List Token → Option Json
  | v, [] => some v
  | .obj ms, .key k :: rest =>
    match ms.lookup k with
    | some v => v.pointer rest
    | none => none
  | .obj ms, .index n :: rest =>
    match ms.lookup (toString n) with
    | some v => v.pointer rest
    | none => none
  | .arr xs, .index n :: rest =>
    match xs[n]? with
    | some v => v.pointer rest
    | none => none
  | _, _ :: _ => none

/-! ## Building -/

/-- Fields added to the members of a record, those without a value left out. -/
@[grind =] def addFields (acc : List (String × Json)) : List (String × Option Json) → List (String × Json)
  | [] => acc
  | (k, some v) :: rest => addFields (insertMember k v acc) rest
  | (_, none) :: rest => addFields acc rest

/-- The members of a record with optional fields. -/
def fields (l : List (String × Option Json)) : List (String × Json) := addFields [] l

theorem addFields_sorted : ∀ {l : List (String × Option Json)} {acc : List (String × Json)}, MembersSorted acc →
    MembersSorted (addFields acc l)
  | [], _, h => h
  | (_, some _) :: _, _, h => by
    rw [addFields]
    exact addFields_sorted h.insertMember
  | (_, none) :: _, _, h => by
    rw [addFields]
    exact addFields_sorted h

theorem fields_sorted (l : List (String × Option Json)) : MembersSorted (fields l) := addFields_sorted List.Pairwise.nil

theorem lookup_addFields_not_mem {k : String} : ∀ {l : List (String × Option Json)} {acc : List (String × Json)},
    k ∉ l.map Prod.fst → (addFields acc l).lookup k = acc.lookup k
  | [], _, _ => rfl
  | (k', some v) :: rest, acc, h => by
    rw [List.map_cons, List.mem_cons, not_or] at h
    rw [addFields, lookup_addFields_not_mem h.2, lookup_insertMember_ne h.1]
  | (k', none) :: rest, acc, h => by
    rw [List.map_cons, List.mem_cons, not_or] at h
    rw [addFields, lookup_addFields_not_mem h.2]

theorem lookup_addFields {k : String} : ∀ {l : List (String × Option Json)} {acc : List (String × Json)},
    (l.map Prod.fst).Nodup → acc.lookup k = none → (addFields acc l).lookup k = (l.lookup k).join
  | [], _, _, hacc => hacc
  | (k', v) :: rest, acc, hl, hacc => by
    rw [List.map_cons, List.nodup_cons] at hl
    rw [List.lookup_cons]
    by_cases hk : k = k'
    · subst hk
      cases v with
      | some v => rw [addFields, lookup_addFields_not_mem hl.1, lookup_insertMember_self]; simp
      | none => rw [addFields, lookup_addFields_not_mem hl.1, hacc]; simp
    · rw [beq_eq_false_iff_ne.mpr hk]
      cases v with
      | some v => exact lookup_addFields hl.2 (by rw [lookup_insertMember_ne hk, hacc])
      | none => exact lookup_addFields hl.2 hacc

/-- A record with different field names has each of its fields that has a value. -/
theorem lookup_fields {k : String} {l : List (String × Option Json)} (hl : (l.map Prod.fst).Nodup) :
    (fields l).lookup k = (l.lookup k).join := lookup_addFields hl rfl

/-! ## Encoding and decoding -/

section reload

variable (ρ : UInt64 → UInt64)

mutual

/-- Decoding an encoded value, where `ρ` is what a float is read back as. -/
def reload : Json → Json
  | .null => .null
  | .bool b => .bool b
  | .num (.float bits) => .num (.float (ρ bits))
  | .num (.posInt n) => .num (.posInt n)
  | .num (.negInt n) => .num (.negInt n)
  | .str s => .str s
  | .arr xs => .arr (reloadItems xs)
  | .obj ms => .obj (reloadMembers ms)

def reloadItems : List Json → List Json
  | [] => []
  | x :: xs => x.reload :: reloadItems xs

@[grind =] def reloadMembers : List (String × Json) → List (String × Json)
  | [] => []
  | (k, x) :: xs => (k, x.reload) :: reloadMembers xs

end

theorem reloadMembers_eq_map : ∀ ms : List (String × Json), reloadMembers ρ ms = ms.map fun x => (x.1, x.2.reload ρ)
  | [] => rfl
  | (k, x) :: xs => by rw [reloadMembers, reloadMembers_eq_map xs, List.map_cons]

theorem lookup_reloadMembers (k : String) :
    ∀ ms : List (String × Json), (reloadMembers ρ ms).lookup k = (ms.lookup k).map (reload ρ)
  | [] => rfl
  | (k', x) :: xs => by
    rw [reloadMembers, List.lookup_cons, List.lookup_cons]
    split
    · rfl
    · exact lookup_reloadMembers k xs

theorem reloadMembers_sorted {ms : List (String × Json)} (h : MembersSorted ms) :
    MembersSorted (reloadMembers ρ ms) := by
  rw [reloadMembers_eq_map]
  exact List.pairwise_map.mpr h

end reload

end Json

end Firestone.Lib
