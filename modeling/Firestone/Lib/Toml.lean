import Firestone.Lib.Members
import Mathlib.Data.String.Basic

/-!
# TOML values

The values of a TOML document, with the members of a table in key order, and what a derived encoder and decoder make of a
record. There is no null: an absent field is left out.

* `present` — the members of a record from its fields, which are given in key order.
* `Toml.table?`, `field` — a record with known names only, and one of its fields.
* `Toml.insertPath`, `Toml.takePath` — a value put at a path of keys and taken from it again; `takePath_insertPath` says
  that this gives back both the value and the document.
-/

namespace Firestone.Lib

inductive Toml
  | string (s : String)
  | integer (n : Int)
  | float (bits : UInt64)
  | boolean (b : Bool)
  | datetime (text : String)
  | array (items : List Toml)
  | table (members : List (String × Toml))
  deriving Repr

/-! ## Records -/

variable {α β : Type}

/-- The fields that have a value. -/
def present (l : List (String × Option β)) : List (String × β) := l.filterMap fun x => x.2.map (x.1, ·)

/-- The names of the fields are in key order. -/
def FieldsSorted (l : List (String × Option β)) : Prop := l.Pairwise fun x y => x.1 < y.1

theorem FieldsSorted.of_keys {l : List (String × Option β)} (keys : List String) (hkeys : l.map Prod.fst = keys)
    (h : keys.Pairwise (· < ·)) : FieldsSorted l := by
  rw [← hkeys] at h
  exact List.pairwise_map.mp h

theorem present_cons_some (k : String) (v : β) (l : List (String × Option β)) :
    present ((k, some v) :: l) = (k, v) :: present l := rfl

theorem present_cons_none (k : String) (l : List (String × Option β)) : present ((k, none) :: l) = present l := rfl

theorem mem_present {x : String × β} : ∀ {l : List (String × Option β)}, x ∈ present l → (x.1, some x.2) ∈ l
  | [], h => by cases h
  | (k, none) :: l, h => List.mem_cons_of_mem _ (mem_present h)
  | (k, some v) :: l, h => by
    rcases List.mem_cons.mp h with rfl | h
    · exact List.mem_cons_self
    · exact List.mem_cons_of_mem _ (mem_present h)

theorem present_sorted : ∀ {l : List (String × Option β)}, FieldsSorted l → MembersSorted (present l)
  | [], _ => List.Pairwise.nil
  | (k, none) :: l, h => by
    rw [present_cons_none]
    exact present_sorted (List.pairwise_cons.mp h).2
  | (k, some v) :: l, h => by
    obtain ⟨hhead, htail⟩ := List.pairwise_cons.mp h
    exact List.pairwise_cons.mpr ⟨fun x hx => hhead _ (mem_present hx), present_sorted htail⟩

/-- A field that is not named is not found. -/
theorem lookup_present_of_lt {k : String} {l : List (String × Option β)} (h : ∀ x ∈ l, k < x.1) :
    (present l).lookup k = none := lookup_eq_none_of_lt fun _ hx => h _ (mem_present hx)

theorem lookup_present {k : String} : ∀ {l : List (String × Option β)}, FieldsSorted l →
    (present l).lookup k = (l.lookup k).join
  | [], _ => rfl
  | (k', v) :: l, h => by
    obtain ⟨hhead, htail⟩ := List.pairwise_cons.mp h
    rw [List.lookup_cons]
    by_cases hk : k = k'
    · subst hk
      cases v with
      | none =>
        rw [present_cons_none, lookup_present_of_lt hhead, beq_self_eq_true]
        rfl
      | some v =>
        rw [present_cons_some, List.lookup_cons_self, beq_self_eq_true]
        rfl
    · rw [beq_eq_false_iff_ne.mpr hk]
      cases v with
      | none => exact lookup_present htail
      | some v =>
        rw [present_cons_some, List.lookup_cons, beq_eq_false_iff_ne.mpr hk]
        exact lookup_present htail

namespace Toml

/-- The members of a record with these field names. -/
def table? (names : List String) : Toml → Option (List (String × Toml))
  | .table ms => if (ms.all fun m => names.contains m.1) = true then some ms else none
  | _ => none

theorem table?_present {names : List String} {l : List (String × Option Toml)} (h : ∀ x ∈ l, x.1 ∈ names) :
    table? names (.table (present l)) = some (present l) := by
  refine if_pos (List.all_eq_true.mpr fun x hx => ?_)
  rw [List.contains_iff_mem]
  exact h _ (mem_present hx)

/-- A field that may be missing. -/
def field (ms : List (String × Toml)) (name : String) (decode : Toml → Option α) : Option (Option α) :=
  match ms.lookup name with
  | none => some none
  | some v => (decode v).map some

/-- A field that is written is read back. -/
theorem field_present {l : List (String × Option Toml)} (hl : FieldsSorted l) {name : String} {decode : Toml → Option α}
    {encode : α → Toml} {x : Option α} (hname : l.lookup name = some (x.map encode))
    (h : ∀ a, x = some a → decode (encode a) = some a) : field (present l) name decode = some x := by
  rw [field, lookup_present hl, hname, Option.join_some]
  cases x with
  | none => rfl
  | some a =>
    simp only [Option.map_some]
    rw [h a rfl, Option.map_some]

/-! ## Values -/

def asString : Toml → Option String
  | .string s => some s
  | _ => none

def asBool : Toml → Option Bool
  | .boolean b => some b
  | _ => none

/-- An unsigned integer below the bound. -/
def asNat (bound : Nat) : Toml → Option Nat
  | .integer n => if 0 ≤ n ∧ n < bound then some n.toNat else none
  | _ => none

/-- A value that is written as a string. -/
def asText (parse : String → Option α) (v : Toml) : Option α := v.asString.bind parse

def asList (decode : Toml → Option α) : Toml → Option (List α)
  | .array items => items.mapM decode
  | _ => none

theorem asList_map {encode : α → Toml} {decode : Toml → Option α} {l : List α}
    (h : ∀ a ∈ l, decode (encode a) = some a) : asList decode (.array (l.map encode)) = some l := by
  rw [asList]
  induction l with
  | nil => rfl
  | cons a l ih =>
    rw [List.map_cons, List.mapM_cons, h a List.mem_cons_self, ih fun b hb => h b (List.mem_cons_of_mem _ hb)]
    rfl

theorem asNat_integer {bound n : Nat} (h : n < bound) : asNat bound (.integer n) = some n := by
  rw [asNat, if_pos (by omega)]
  rfl

/-! ## Paths of keys -/

/-- The document with a value at a path, whose tables are made where they are missing; the key at which there is no
table, otherwise. -/
@[grind =] def insertPath (inserted : Toml) : List String → Toml → Except String Toml
  | [], _ => .error ""
  | [leaf], .table ms => .ok (.table (insertMember leaf inserted ms))
  | parent :: rest, .table ms =>
    match insertPath inserted rest ((ms.lookup parent).getD (.table [])) with
    | .ok child => .ok (.table (insertMember parent child ms))
    | .error key => .error key
  | key :: _, _ => .error key

/-- The value at a path, if there is one, and the document without it. -/
@[grind =] def takePath : List String → Toml → Option Toml × Toml
  | [leaf], .table ms => (ms.lookup leaf, .table (eraseMember leaf ms))
  | parent :: rest, .table ms =>
    match ms.lookup parent with
    | some child => ((takePath rest child).1, .table (insertMember parent (takePath rest child).2 ms))
    | none => (none, .table ms)
  | _, v => (none, v)

/-- All tables on the path are there, and nothing at its end. -/
def Vacant : List String → Toml → Prop
  | [leaf], .table ms => MembersSorted ms ∧ ms.lookup leaf = none
  | parent :: rest, .table ms => MembersSorted ms ∧ ∃ child, ms.lookup parent = some child ∧ Vacant rest child
  | _, _ => False

theorem insertMember_lookup {k : String} {v : β} {ms : List (String × β)} (hs : MembersSorted ms)
    (h : ms.lookup k = some v) : insertMember k v ms = ms := by
  refine hs.insertMember.ext hs fun k' => ?_
  by_cases hk : k' = k
  · rw [hk, lookup_insertMember_self, h]
  · rw [lookup_insertMember_ne hk]

theorem insertMember_insertMember {k : String} {v v' : β} {ms : List (String × β)} (hs : MembersSorted ms)
    (h : ms.lookup k = some v) : insertMember k v (insertMember k v' ms) = ms := by
  refine hs.insertMember.insertMember.ext hs fun k' => ?_
  by_cases hk : k' = k
  · rw [hk, lookup_insertMember_self, h]
  · rw [lookup_insertMember_ne hk, lookup_insertMember_ne hk]

theorem eraseMember_of_lookup {k : String} {ms : List (String × β)} (hs : MembersSorted ms) (h : ms.lookup k = none) :
    eraseMember k ms = ms := by
  refine hs.eraseMember.ext hs fun k' => ?_
  by_cases hk : k' = k
  · rw [hk, lookup_eraseMember_self, h]
  · rw [lookup_eraseMember_ne hk]

theorem eraseMember_insertMember {k : String} {v : β} {ms : List (String × β)} (hs : MembersSorted ms)
    (h : ms.lookup k = none) : eraseMember k (insertMember k v ms) = ms := by
  refine hs.insertMember.eraseMember.ext hs fun k' => ?_
  by_cases hk : k' = k
  · rw [hk, lookup_eraseMember_self, h]
  · rw [lookup_eraseMember_ne hk, lookup_insertMember_ne hk]

/-- Nothing is taken from a vacant path. -/
theorem takePath_vacant : ∀ {path : List String} {doc : Toml}, Vacant path doc → takePath path doc = (none, doc)
  | [leaf], .table ms, h => by
    obtain ⟨hs, hleaf⟩ := h
    rw [takePath, hleaf, eraseMember_of_lookup hs hleaf]
  | parent :: key :: rest, .table ms, h => by
    obtain ⟨hs, child, hchild, hv⟩ := h
    simp only [takePath, hchild, takePath_vacant hv, insertMember_lookup hs hchild]

/-- What is put at a vacant path is taken from it again. -/
theorem takePath_insertPath {x : Toml} : ∀ {path : List String} {doc : Toml}, Vacant path doc →
    ∃ doc', insertPath x path doc = .ok doc' ∧ takePath path doc' = (some x, doc)
  | [leaf], .table ms, h => by
    obtain ⟨hs, hleaf⟩ := h
    refine ⟨_, rfl, ?_⟩
    rw [takePath, lookup_insertMember_self, eraseMember_insertMember hs hleaf]
  | parent :: key :: rest, .table ms, h => by
    obtain ⟨hs, child, hchild, hv⟩ := h
    obtain ⟨child', hinsert, htake⟩ := takePath_insertPath (x := x) hv
    refine ⟨.table (insertMember parent child' ms), ?_, ?_⟩
    · simp only [insertPath, hchild, Option.getD_some, hinsert]
    · simp only [takePath, lookup_insertMember_self, htake, insertMember_insertMember hs hchild]

end Toml

end Firestone.Lib
