import Firestone.Lib.LastWins
import Firestone.Lib.Text

/-!
# The environment of the guest's program

The host merges the environment of an image with that of the machine into the boot configuration. The guest's first process
makes the variables of its child from what it finds there.

* `mergeEnv` — the merge on the host.
* `childEnv` — the variables of the child.
* `mergeEnv_agrees` — what the merge keeps, and that the guest would make the same variables without it.
-/

namespace Firestone.Boot

open Firestone.Lib

/-- The name in an entry, or all of an entry without an equals sign. -/
def envKey (entry : String) : String :=
  match splitOnce '=' entry with
  | some (key, _) => key
  | none => entry

def mergeEnv (image overrides : List String) : List String :=
  (image ++ overrides).foldl (fun merged entry => upsert envKey entry merged) []

/-- The variable of an entry. -/
def envPair (entry : String) : String × String := (envKey entry, ((splitOnce '=' entry).map Prod.snd).getD "")

def childEnv (env : List String) : List (String × String) :=
  env.foldl (fun pairs entry => upsert Prod.fst (envPair entry) pairs) []

theorem mergeEnv_eq (image overrides : List String) : mergeEnv image overrides = lastWins envKey (image ++ overrides) := rfl

theorem childEnv_eq (env : List String) : childEnv env = lastWins Prod.fst (env.map envPair) := by
  rw [childEnv, lastWins, List.foldl_map]

/-- The variables of the child have different names. -/
theorem nodup_childEnv (env : List String) : ((childEnv env).map Prod.fst).Nodup := by
  rw [childEnv_eq]
  exact nodup_lastWins _

/-- The guest makes the same variables of merged entries. -/
theorem childEnv_lastWins (entries : List String) : childEnv (lastWins envKey entries) = childEnv entries := by
  have hkeys : ∀ entry, (envPair entry).1 = envKey entry := fun _ => rfl
  calc childEnv (lastWins envKey entries) = lastWins Prod.fst ((lastWins envKey entries).map envPair) := childEnv_eq _
    _ = lastWins Prod.fst (lastWins Prod.fst (entries.map envPair)) := by rw [map_lastWins_of_key hkeys]
    _ = lastWins Prod.fst (entries.map envPair) := lastWins_of_nodup (nodup_lastWins _)
    _ = childEnv entries := (childEnv_eq entries).symm

/-- **The merge of environments agrees between host and guest**: names are in the order of their first appearance, each once
and with its last entry; merging again changes nothing; and the child gets the variables of all the entries. -/
theorem mergeEnv_agrees (a b : List String) :
    (mergeEnv a b).map envKey = ((a ++ b).map envKey).eraseDups ∧ ((mergeEnv a b).map envKey).Nodup ∧
    (∀ key, (mergeEnv a b).find? (envKey · = key) = (a ++ b).reverse.find? (envKey · = key)) ∧
    mergeEnv a b = mergeEnv (a ++ b) [] ∧
    mergeEnv (mergeEnv a b) [] = mergeEnv a b ∧ mergeEnv (mergeEnv a b) (mergeEnv a b) = mergeEnv a b ∧
    childEnv (mergeEnv a b) = childEnv (a ++ b) := by
  have hnodup : ((mergeEnv a b).map envKey).Nodup := nodup_lastWins _
  have hagain : mergeEnv (mergeEnv a b) [] = mergeEnv a b := by
    rw [mergeEnv_eq (mergeEnv a b), List.append_nil]
    exact lastWins_of_nodup hnodup
  refine ⟨map_lastWins _, hnodup, find?_lastWins _, ?_, hagain, ?_, childEnv_lastWins _⟩
  · rw [mergeEnv_eq, mergeEnv_eq, List.append_nil]
  · -- the second list finds all its entries in the first
    rw [mergeEnv, List.foldl_append]
    have hfirst : (mergeEnv a b).foldl (fun merged entry => upsert envKey entry merged) [] = mergeEnv a b :=
      lastWins_of_nodup hnodup
    rw [hfirst]
    exact foldl_upsert_of_mem hnodup fun _ hx => hx

/-- A bare entry is a variable with an empty value, and it is the last entry that counts. -/
example : childEnv (mergeEnv ["A=1", "B"] ["A=2=3"]) = [("A", "2=3"), ("B", "")] := by decide

end Firestone.Boot
