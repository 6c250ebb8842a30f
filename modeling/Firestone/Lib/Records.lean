import Firestone.Lib.Json

/-!
# Records as JSON

How a derived decoder reads a record from a document, and the values of the fields. The members of an object are here in
the order of the text.

* `Json.record` — the members of a record: known names only, each at most once, or one item for each field.
* `requiredField`, `optionalField` — one field; an optional one may also be missing or null.
* `Json.toNatMap`, `Json.ofNatMap` — an ordered map of numbers. A key that is repeated has its last value.
-/

namespace Firestone.Lib

namespace Json

/-- The members of a record with these field names. -/
def record (names : List String) : Json → Option (List (String × Json))
  | .obj ms => if (ms.all fun m => names.contains m.1) = true ∧ (ms.map Prod.fst).Nodup then some ms else none
  | .arr items => if items.length = names.length then some (names.zip items) else none
  | _ => none

variable {α : Type}

def requiredField (ms : List (String × Json)) (name : String) (decode : Json → Option α) : Option α :=
  (ms.lookup name).bind decode

def nullable (decode : Json → Option α) : Json → Option (Option α)
  | .null => some none
  | v => (decode v).map some

def optionalField (ms : List (String × Json)) (name : String) (decode : Json → Option α) : Option (Option α) :=
  match ms.lookup name with
  | none => some none
  | some v => nullable decode v

def ofOption (encode : α → Json) : Option α → Json
  | none => .null
  | some a => encode a

/-! ## Values -/

def asText : Json → Option String
  | .str s => some s
  | _ => none

/-- An unsigned integer below the bound. -/
def asNat (bound : Nat) : Json → Option Nat
  | .num (.posInt n) => if n < bound then some n else none
  | _ => none

/-- An integer of `[-bound, bound)`. -/
def asInt (bound : Nat) : Json → Option Int
  | .num (.posInt n) => if n < bound then some n else none
  | .num (.negInt n) => if -bound ≤ n ∧ n < bound then some n else none
  | _ => none

def ofNat (n : Nat) : Json := .num (.posInt n)

def ofInt (n : Int) : Json := if 0 ≤ n then .num (.posInt n.toNat) else .num (.negInt n)

/-- The name of a variant without data. -/
def asVariant : Json → Option String
  | .str s => some s
  | .obj [(s, .null)] => some s
  | _ => none

def asItems (decode : Json → Option α) : Json → Option (List α)
  | .arr items => items.mapM decode
  | _ => none

def ofNatMap (m : List (String × Nat)) : Json := .obj (m.map fun x => (x.1, ofNat x.2))

/-- The members of a map, added one after the other. -/
def toNatMap (bound : Nat) (acc : List (String × Nat)) : List (String × Json) → Option (List (String × Nat))
  | [] => some acc
  | (k, v) :: rest => (asNat bound v).bind fun n => toNatMap bound (insertMember k n acc) rest

def asNatMap (bound : Nat) : Json → Option (List (String × Nat))
  | .obj ms => toNatMap bound [] ms
  | _ => none

/-! ## Reading back what was written -/

theorem requiredField_some {ms : List (String × Json)} {name : String} {decode : Json → Option α} {v : Json} {a : α}
    (h : ms.lookup name = some v) (ha : decode v = some a) : requiredField ms name decode = some a := by
  rw [requiredField, h, Option.bind_some, ha]

theorem optionalField_some {ms : List (String × Json)} {name : String} {decode : Json → Option α} {v : Json} {a : Option α}
    (h : ms.lookup name = some v) (ha : nullable decode v = some a) : optionalField ms name decode = some a := by
  rw [optionalField, h]
  exact ha

/-- A decoder goes on with the field that it has read. -/
theorem bind_of_some {β : Type} {x : Option α} {f : α → Option β} {a : α} {r : Option β} (h : x = some a) (hf : f a = r) :
    x >>= f = r := by
  rw [h]
  exact hf

@[simp] theorem asText_str (s : String) : asText (.str s) = some s := rfl

theorem asNat_ofNat {bound n : Nat} (h : n < bound) : asNat bound (ofNat n) = some n := if_pos h

theorem asInt_ofInt {bound : Nat} {n : Int} (hlo : -bound ≤ n) (hhi : n < bound) : asInt bound (ofInt n) = some n := by
  unfold ofInt
  split
  · have hn : n.toNat < bound := by omega
    rw [asInt, if_pos hn]
    congr 1
    omega
  · exact if_pos ⟨hlo, hhi⟩

theorem nullable_ofOption {encode : α → Json} {decode : Json → Option α} {x : Option α}
    (h : ∀ a, x = some a → encode a ≠ .null ∧ decode (encode a) = some a) :
    nullable decode (ofOption encode x) = some x := by
  cases x with
  | none => rfl
  | some a =>
    obtain ⟨hne, hdec⟩ := h a rfl
    rw [ofOption, nullable, hdec, Option.map_some]
    exact hne

theorem asItems_map {encode : α → Json} {decode : Json → Option α} {l : List α}
    (h : ∀ a ∈ l, decode (encode a) = some a) : asItems decode (.arr (l.map encode)) = some l := by
  rw [asItems]
  induction l with
  | nil => rfl
  | cons a l ih =>
    rw [List.map_cons, List.mapM_cons, h a List.mem_cons_self, ih fun b hb => h b (List.mem_cons_of_mem _ hb)]
    rfl

/-- A member above all others goes to the end. -/
theorem insertMember_append {β : Type} {k : String} {v : β} :
    ∀ {l : List (String × β)}, (∀ x ∈ l, x.1 < k) → insertMember k v l = l ++ [(k, v)]
  | [], _ => rfl
  | (k', v') :: rest, h => by
    have hk : k' < k := h _ List.mem_cons_self
    rw [insertMember, if_neg (lt_asymm hk), if_neg (ne_of_gt hk),
      insertMember_append fun x hx => h x (List.mem_cons_of_mem _ hx)]
    rfl

theorem toNatMap_append {bound : Nat} : ∀ {l acc : List (String × Nat)}, MembersSorted (acc ++ l) →
    (∀ x ∈ l, x.2 < bound) → toNatMap bound acc (l.map fun x => (x.1, ofNat x.2)) = some (acc ++ l)
  | [], acc, _, _ => by rw [List.map_nil, toNatMap, List.append_nil]
  | (k, n) :: rest, acc, hsorted, hbound => by
    have hlast : ∀ x ∈ acc, x.1 < k := fun x hx =>
      (List.pairwise_append.mp hsorted).2.2 x hx (k, n) List.mem_cons_self
    have hassoc : acc ++ (k, n) :: rest = (acc ++ [(k, n)]) ++ rest := by simp
    rw [List.map_cons, toNatMap, asNat_ofNat (hbound _ List.mem_cons_self), Option.bind_some, insertMember_append hlast]
    rw [hassoc] at hsorted ⊢
    exact toNatMap_append hsorted fun x hx => hbound x (List.mem_cons_of_mem _ hx)

/-- A map in key order is read back. -/
theorem asNatMap_ofNatMap {bound : Nat} {m : List (String × Nat)} (hsorted : MembersSorted m)
    (hbound : ∀ x ∈ m, x.2 < bound) : asNatMap bound (ofNatMap m) = some m :=
  toNatMap_append hsorted hbound

end Json

end Firestone.Lib
