import Mathlib.Data.List.Infix

/-!
# Directory trees

A path is the list of its components, a tree maps paths to what they hold.

* `Comparable p q` — one path is at or above the other.
* `TreeOp.apply` — what making, writing, unlinking, moving and removing whole subtrees does to a tree.
* `applyAll_frame` — a path that is not at or below the operands of any operation keeps what it holds.
-/

namespace Firestone.Lib

universe u v

variable {κ : Type u} {α : Type v}

/-- One path is at or above the other. -/
def Comparable (p q : List κ) : Prop := p <+: q ∨ q <+: p

/-- What is at or below two paths makes them comparable. -/
theorem comparable_of_isPrefix {p q r : List κ} (hp : p <+: r) (hq : q <+: r) : Comparable p q :=
  List.prefix_or_prefix_of_prefix hp hq

/-- A path below `p` is comparable only with what `p` is comparable with. -/
theorem Comparable.of_append {p q r : List κ} (h : Comparable (p ++ r) q) : Comparable p q := by
  rcases h with h | h
  · exact .inl ((List.prefix_append p r).trans h)
  · exact comparable_of_isPrefix (List.prefix_append p r) h

/-- An entry is at or above an entry of another directory when it is that entry, or at or above that directory. -/
theorem entry_isPrefix {p q : List κ} {a b : κ} : p ++ [a] <+: q ++ [b] ↔ (p = q ∧ a = b) ∨ p ++ [a] <+: q := by
  constructor
  · intro h
    rcases List.prefix_concat_iff.mp h with heq | h
    · exact .inl (by simpa using heq)
    · exact .inr h
  · rintro (⟨rfl, rfl⟩ | h)
    · exact List.prefix_refl _
    · exact h.trans (List.prefix_append q [b])

theorem entry_comparable {p q : List κ} {a b : κ} :
    Comparable (p ++ [a]) (q ++ [b]) ↔ (p = q ∧ a = b) ∨ p ++ [a] <+: q ∨ q ++ [b] <+: p := by
  unfold Comparable
  rw [entry_isPrefix, entry_isPrefix, eq_comm (a := q), eq_comm (a := b)]
  tauto

/-- A directory is never inside one of its own entries. -/
theorem entry_not_isPrefix (p : List κ) (a : κ) : ¬ p ++ [a] <+: p := by
  intro h
  have hlen := h.length_le
  simp only [List.length_append, List.length_singleton] at hlen
  omega

/-- What each path holds. -/
abbrev Tree (κ : Type u) (α : Type v) := List κ → Option α

inductive TreeOp (κ : Type u) (α : Type v)
  | put (path : List κ) (value : α)
  | unlink (path : List κ)
  /-- Everything at or below the path goes. -/
  | removeAll (path : List κ)
  /-- Everything at or below the path moves. -/
  | move (source dest : List κ)

/-- The paths an operation names. -/
def TreeOp.operands : TreeOp κ α → List (List κ)
  | .put path _ | .unlink path | .removeAll path => [path]
  | .move source dest => [source, dest]

section apply

variable [DecidableEq κ]

def TreeOp.apply (tree : Tree κ α) : TreeOp κ α → Tree κ α
  | .put path value => Function.update tree path (some value)
  | .unlink path => Function.update tree path none
  | .removeAll path => fun q => if path <+: q then none else tree q
  | .move source dest => fun q =>
    if dest <+: q then tree (source ++ q.drop dest.length) else if source <+: q then none else tree q

def applyAll (tree : Tree κ α) (ops : List (TreeOp κ α)) : Tree κ α := ops.foldl TreeOp.apply tree

/-- An operation leaves alone what is not at or below its operands. -/
theorem TreeOp.apply_frame {tree : Tree κ α} {op : TreeOp κ α} {q : List κ} (h : ∀ p ∈ op.operands, ¬ p <+: q) :
    op.apply tree q = tree q := by
  cases op with
  | put path value =>
    have hne : q ≠ path := fun heq => h path (by simp [operands]) (heq ▸ List.prefix_refl q)
    exact Function.update_of_ne hne _ _
  | unlink path =>
    have hne : q ≠ path := fun heq => h path (by simp [operands]) (heq ▸ List.prefix_refl q)
    exact Function.update_of_ne hne _ _
  | removeAll path => exact if_neg (h path (by simp [operands]))
  | move source dest =>
    have hdest := h dest (by simp [operands])
    have hsource := h source (by simp [operands])
    simp only [apply, if_neg hdest, if_neg hsource]

theorem applyAll_frame {tree : Tree κ α} {ops : List (TreeOp κ α)} {q : List κ}
    (h : ∀ op ∈ ops, ∀ p ∈ op.operands, ¬ p <+: q) : applyAll tree ops q = tree q := by
  induction ops generalizing tree with
  | nil => rfl
  | cons op ops ih =>
    rw [applyAll, List.foldl_cons]
    refine (ih fun op' hop' => h op' (by simp [hop'])).trans ?_
    exact TreeOp.apply_frame (h op (by simp))

end apply

end Firestone.Lib
