import Mathlib.Data.List.Basic
import Mathlib.Data.List.Infix
import Mathlib.Tactic.Common

/-!
# Paths through symbolic links

A tree is given by its links and its directories. `walk` resolves a path as a kernel does: a step at a time, with every
link followed where it is met, from its own directory or from the root. `follow` is a shortcut that looks only at whole
paths and reads a target lexically.

* `walk_real` — there is no link on the path that a walk ends at.
* `walk_straight` — a walk over steps that meet no link before the last one is lexical.
* `follow_eq_walk` — the shortcut finds what the walk finds if no target runs through a link and none names the root.
-/

namespace Firestone.Lib

variable {κ : Type}

/-- A component of a path: the parent directory or a name. -/
inductive Step (κ : Type)
  | up
  | name (k : κ)
  deriving DecidableEq, Repr

/-- The target of a link. -/
structure Link (κ : Type) where
  absolute : Bool
  steps : List (Step κ)
  deriving DecidableEq, Repr

/-- Where the target of a link in a directory starts. -/
def Link.base (link : Link κ) (dir : List κ) : List κ := if link.absolute then [] else dir

def Step.push (stack : List κ) : Step κ → List κ
  | .up => stack.dropLast
  | .name k => stack ++ [k]

/-- The path after some steps, without a look at the tree. -/
def lexical (stack : List κ) (steps : List (Step κ)) : List κ := steps.foldl Step.push stack

/-- The path that the target of a link names lexically. -/
def Link.next (link : Link κ) (path : List κ) : List κ := lexical (link.base path.dropLast) link.steps

section tree

variable (links : List κ → Option (Link κ)) (isDir : List κ → Bool)

/-- The directory that some steps lead to, if a link leads on as `onLink` says. -/
def walkSteps (onLink : List κ → List (Step κ) → Option (List κ)) : List κ → List (Step κ) → Option (List κ)
  | dir, [] => some dir
  | dir, .up :: rest => walkSteps onLink dir.dropLast rest
  | dir, .name k :: rest =>
    match links (dir ++ [k]) with
    | none => if isDir (dir ++ [k]) then walkSteps onLink (dir ++ [k]) rest else none
    | some link => onLink (link.base dir) (link.steps ++ rest)

/-- The directory that some steps lead to, with at most `hops` links followed. -/
@[grind =] def walk : Nat → List κ → List (Step κ) → Option (List κ)
  | 0 => walkSteps links isDir fun _ _ => none
  | hops + 1 => walkSteps links isDir (walk hops)

/-- Follows the links of whole paths; it stops at a target that is the root or the link itself. -/
@[grind =] def follow [DecidableEq κ] : Nat → List κ → List κ
  | 0, path => path
  | hops + 1, path =>
    match links path with
    | none => path
    | some link => if link.next path = [] ∨ link.next path = path then path else follow hops (link.next path)

/-- There is no link on the path. -/
def Real (path : List κ) : Prop := ∀ q, q ≠ [] → q <+: path → links q = none

/-- The steps meet no link before the last one. -/
def Straight : List κ → List (Step κ) → Prop
  | _, [] => True
  | stack, .up :: rest => Straight stack.dropLast rest
  | stack, .name k :: rest => (rest = [] ∨ links (stack ++ [k]) = none) ∧ Straight (stack ++ [k]) rest

/-- The targets of the next links are straight, and none names the root. -/
def StraightLinks : Nat → List κ → Prop
  | 0, _ => True
  | hops + 1, path => ∀ link, links path = some link →
    Straight links (link.base path.dropLast) link.steps ∧ link.next path ≠ [] ∧ StraightLinks hops (link.next path)

section rules

variable {links isDir}

theorem Real.mono {p q : List κ} (h : Real links q) (hp : p <+: q) : Real links p :=
  fun r hr hpre => h r hr (hpre.trans hp)

theorem Real.nil : Real links [] := fun q hq hprefix => absurd (List.prefix_nil.mp hprefix) hq

theorem Real.push {dir : List κ} {k : κ} (h : Real links dir) (hk : links (dir ++ [k]) = none) : Real links (dir ++ [k]) := by
  intro q hq hprefix
  rcases List.prefix_concat_iff.mp hprefix with rfl | hprefix
  · exact hk
  · exact h q hq hprefix

theorem Real.base {dir : List κ} (h : Real links dir) (link : Link κ) : Real links (link.base dir) := by
  unfold Link.base
  split
  · exact Real.nil
  · exact h

theorem follow_of_none [DecidableEq κ] {path : List κ} (h : links path = none) : ∀ hops, follow links hops path = path
  | 0 => rfl
  | _ + 1 => by rw [follow, h]

theorem walk_nil (hops : Nat) (dir : List κ) : walk links isDir hops dir [] = some dir := by
  cases hops <;> rfl

theorem walk_up (hops : Nat) (dir : List κ) (rest : List (Step κ)) :
    walk links isDir hops dir (.up :: rest) = walk links isDir hops dir.dropLast rest := by
  cases hops <;> rfl

/-- One name of a walk. -/
theorem walk_name {hops : Nat} {dir r : List κ} {k : κ} {rest : List (Step κ)}
    (h : walk links isDir hops dir (.name k :: rest) = some r) :
    (links (dir ++ [k]) = none ∧ walk links isDir hops (dir ++ [k]) rest = some r) ∨
      ∃ link n, links (dir ++ [k]) = some link ∧ hops = n + 1 ∧
        walk links isDir n (link.base dir) (link.steps ++ rest) = some r := by
  cases hlink : links (dir ++ [k]) with
  | none =>
    refine .inl ⟨rfl, ?_⟩
    cases hops <;>
    · simp only [walk, walkSteps, hlink, Option.ite_none_right_eq_some] at h
      exact h.2
  | some link =>
    cases hops with
    | zero =>
      simp only [walk, walkSteps, hlink] at h
      cases h
    | succ n =>
      simp only [walk, walkSteps, hlink] at h
      exact .inr ⟨link, n, rfl, rfl, h⟩

/-- The end of a walk is real. -/
theorem walk_real {hops : Nat} {dir r : List κ} {steps : List (Step κ)} (hdir : Real links dir)
    (h : walk links isDir hops dir steps = some r) : Real links r := by
  induction hops using Nat.strong_induction_on generalizing dir steps with
  | _ hops ih =>
    induction steps generalizing dir with
    | nil =>
      rw [walk_nil] at h
      cases h
      exact hdir
    | cons step rest ihs =>
      cases step with
      | up =>
        rw [walk_up] at h
        exact ihs (hdir.mono dir.dropLast_prefix) h
      | name k =>
        rcases walk_name h with ⟨hnone, hrest⟩ | ⟨link, n, -, rfl, hrest⟩
        · exact ihs (hdir.push hnone) hrest
        · exact ih n (Nat.lt_succ_self n) (hdir.base link) hrest

/-- A walk over straight steps ends where they lead lexically, or is at the last of them. -/
theorem walk_straight {hops : Nat} {r : List κ} : ∀ {stack : List κ} {steps : List (Step κ)}, Real links stack →
    Straight links stack steps → walk links isDir hops stack steps = some r →
    r = lexical stack steps ∨ ∃ dir k, lexical stack steps = dir ++ [k] ∧ Real links dir ∧
      walk links isDir hops dir [.name k] = some r
  | stack, [], _, _, h => by
    rw [walk_nil] at h
    cases h
    exact .inl rfl
  | stack, .up :: rest, hreal, hstraight, h => by
    rw [walk_up] at h
    have hrest := walk_straight (hreal.mono stack.dropLast_prefix) hstraight h
    exact hrest
  | stack, .name k :: rest, hreal, ⟨hlast, hstraight⟩, h => by
    by_cases hrest : rest = []
    · subst hrest
      exact .inr ⟨stack, k, rfl, hreal, h⟩
    · have hnone := hlast.resolve_left hrest
      rcases walk_name h with ⟨-, h⟩ | ⟨link, n, hlink, -⟩
      · have htail := walk_straight (hreal.push hnone) hstraight h
        exact htail
      · rw [hnone] at hlink
        cases hlink

/-- A link whose target is straight and names the link itself leads nowhere. -/
theorem walk_loop {dir : List κ} {k : κ} {link : Link κ} (hreal : Real links dir) (hlink : links (dir ++ [k]) = some link)
    (hstraight : Straight links (link.base dir) link.steps) (hself : lexical (link.base dir) link.steps = dir ++ [k]) :
    ∀ hops, walk links isDir hops dir [.name k] = none
  | 0 => by
    refine Option.eq_none_iff_forall_ne_some.mpr fun r h => ?_
    rcases walk_name h with ⟨hnone, -⟩ | ⟨_, n, -, hn, -⟩
    · rw [hlink] at hnone
      cases hnone
    · omega
  | hops + 1 => by
    refine Option.eq_none_iff_forall_ne_some.mpr fun r h => ?_
    rcases walk_name h with ⟨hnone, -⟩ | ⟨link', n, hlink', hn, h⟩
    · rw [hlink] at hnone
      cases hnone
    · rw [hlink] at hlink'
      cases hlink'
      cases hn
      rw [List.append_nil] at h
      rcases walk_straight (hreal.base link) hstraight h with rfl | ⟨d, k', hnext, -, hwalk⟩
      · have hend := walk_real (hreal.base link) h (dir ++ [k]) (by simp) (by rw [hself])
        rw [hlink] at hend
        cases hend
      · rw [hself] at hnext
        obtain ⟨rfl, hk⟩ := List.append_inj' hnext rfl
        cases hk
        rw [walk_loop hreal hlink hstraight hself hops] at hwalk
        cases hwalk

/-- **The shortcut is the walk** if no target that is followed runs through a link and none names the root. -/
theorem follow_eq_walk [DecidableEq κ] {r : List κ} : ∀ {hops : Nat} {dir : List κ} {k : κ}, Real links dir →
    StraightLinks links hops (dir ++ [k]) → walk links isDir hops dir [.name k] = some r →
    follow links hops (dir ++ [k]) = r
  | hops, dir, k, hreal, hstraight, h => by
    rcases walk_name h with ⟨hnone, hend⟩ | ⟨link, n, hlink, rfl, htarget⟩
    · rw [walk_nil] at hend
      cases hend
      exact follow_of_none hnone hops
    · obtain ⟨hsteps, hroot, hnext⟩ := hstraight link hlink
      have hpath : link.next (dir ++ [k]) = lexical (link.base dir) link.steps := by rw [Link.next, List.dropLast_concat]
      rw [List.dropLast_concat] at hsteps
      rw [List.append_nil] at htarget
      rw [follow, hlink]
      simp only [hroot, false_or]
      have hreach := walk_straight (hreal.base link) hsteps htarget
      rw [← hpath] at hreach
      split
      · -- a link to itself
        rename_i hself
        rw [hpath] at hself
        rw [walk_loop hreal hlink hsteps hself (n + 1)] at h
        cases h
      · rcases hreach with rfl | ⟨d, k', hd, hdreal, hwalk⟩
        · exact follow_of_none (walk_real (hreal.base link) htarget _ hroot List.prefix_rfl) n
        · rw [hd] at hnext ⊢
          exact follow_eq_walk hdreal hnext hwalk

end rules

end tree

end Firestone.Lib
