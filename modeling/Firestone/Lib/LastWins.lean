import Mathlib.Data.List.Induction
import Mathlib.Data.List.Nodup
import Mathlib.Tactic.Common

/-!
# Entries by key, the last one of each

A list of entries is read one after the other. An entry takes the place of the one with its key, or comes last.

* `upsert` — an entry is put into a list.
* `map_lastWins` — the keys are in the order in which they appear first.
* `find?_lastWins` — the entry of a key is the last that there is.
* `lastWins_of_nodup` — entries with different keys stay as they are.
* `map_lastWins_of_key` — a function that keeps the keys may be applied before or after.
-/

namespace Firestone.Lib

variable {α β κ : Type} [DecidableEq κ] {key : α → κ}

/-- The entry takes the place of the first one with its key, or comes last. -/
@[grind =] def upsert (key : α → κ) (x : α) : List α → List α
  | [] => [x]
  | y :: l => if key y = key x then x :: l else y :: upsert key x l

/-- Each entry is put into the list of those before it. -/
def lastWins (key : α → κ) (l : List α) : List α := l.foldl (fun entries x => upsert key x entries) []

theorem lastWins_concat (l : List α) (x : α) : lastWins key (l ++ [x]) = upsert key x (lastWins key l) := by
  simp [lastWins]

/-! ## One entry -/

theorem map_upsert (x : α) : ∀ l : List α,
    (upsert key x l).map key = if key x ∈ l.map key then l.map key else l.map key ++ [key x]
  | [] => by simp [upsert]
  | y :: l => by
    by_cases hy : key y = key x
    · simp [upsert, hy]
    · have ih := map_upsert x l
      have hcons : key x ∈ (y :: l).map key ↔ key x ∈ l.map key := by simp [Ne.symm hy]
      rw [upsert, if_neg hy, List.map_cons, ih]
      by_cases hmem : key x ∈ l.map key
      · rw [if_pos hmem, if_pos (hcons.mpr hmem), List.map_cons]
      · rw [if_neg hmem, if_neg (hcons.not.mpr hmem), List.map_cons, List.cons_append]

theorem find?_upsert (x : α) (k : κ) : ∀ l : List α,
    (upsert key x l).find? (key · = k) = if key x = k then some x else l.find? (key · = k)
  | [] => by by_cases hx : key x = k <;> simp [upsert, hx]
  | y :: l => by
    have ih := find?_upsert x k l
    by_cases hy : key y = key x
    · by_cases hx : key x = k <;> simp [upsert, hy, hx]
    · rw [upsert, if_neg hy]
      by_cases hk : key y = k
      · have hx : key x ≠ k := fun hx => hy (hk.trans hx.symm)
        simp [hk, hx]
      · simp [hk, ih]

/-- An entry that is there stays where it is. -/
theorem upsert_of_mem {x : α} : ∀ {l : List α}, (l.map key).Nodup → x ∈ l → upsert key x l = l
  | y :: l, hl, hx => by
    obtain ⟨hy, hl⟩ := List.nodup_cons.mp hl
    rcases List.mem_cons.mp hx with rfl | hx
    · exact if_pos rfl
    · have hne : key y ≠ key x := fun heq => hy (heq ▸ List.mem_map_of_mem hx)
      rw [upsert, if_neg hne, upsert_of_mem hl hx]

theorem upsert_of_notMem {x : α} : ∀ {l : List α}, key x ∉ l.map key → upsert key x l = l ++ [x]
  | [], _ => rfl
  | y :: l, h => by
    rw [List.map_cons, List.mem_cons, not_or] at h
    rw [upsert, if_neg (Ne.symm h.1), upsert_of_notMem h.2, List.cons_append]

theorem map_upsert_of_key {key' : β → κ} {f : α → β} (hf : ∀ x, key' (f x) = key x) (x : α) : ∀ l : List α,
    (upsert key x l).map f = upsert key' (f x) (l.map f)
  | [] => rfl
  | y :: l => by
    have ih := map_upsert_of_key hf x l
    by_cases hy : key y = key x
    · simp [upsert, hf, hy]
    · simp [upsert, hf, hy, ih]

/-! ## All entries -/

/-- **The keys are in the order of their first appearance.** -/
theorem map_lastWins (l : List α) : (lastWins key l).map key = (l.map key).eraseDups := by
  induction l using List.reverseRecOn with
  | nil => rfl
  | append_singleton l x ih =>
    rw [lastWins_concat, map_upsert, ih, List.map_append, List.map_singleton, List.eraseDups_append]
    by_cases hx : key x ∈ l.map key
    · have hremove : [key x].removeAll (l.map key) = [] := by simpa [List.removeAll] using hx
      rw [hremove, List.eraseDups_nil, List.append_nil, if_pos (List.mem_eraseDups.mpr hx)]
    · have hremove : [key x].removeAll (l.map key) = [key x] := by simpa [List.removeAll] using hx
      rw [hremove, List.eraseDups_cons, List.filter_nil, List.eraseDups_nil, if_neg (mt List.mem_eraseDups.mp hx)]

theorem nodup_lastWins (l : List α) : ((lastWins key l).map key).Nodup := by
  induction l using List.reverseRecOn with
  | nil => exact List.nodup_nil
  | append_singleton l x ih =>
    rw [lastWins_concat, map_upsert]
    split
    · exact ih
    · rename_i hx
      exact ih.append (List.nodup_singleton _) (List.disjoint_singleton.mpr hx)

/-- **The entry of a key is its last.** -/
theorem find?_lastWins (l : List α) (k : κ) : (lastWins key l).find? (key · = k) = l.reverse.find? (key · = k) := by
  induction l using List.reverseRecOn with
  | nil => rfl
  | append_singleton l x ih =>
    rw [lastWins_concat, find?_upsert, ih, List.reverse_append, List.reverse_singleton, List.singleton_append]
    by_cases hx : key x = k <;> simp [hx]

theorem lastWins_of_nodup {l : List α} (h : (l.map key).Nodup) : lastWins key l = l := by
  induction l using List.reverseRecOn with
  | nil => rfl
  | append_singleton l x ih =>
    rw [List.map_append, List.map_singleton, List.nodup_append] at h
    have hx : key x ∉ l.map key := fun hx => h.2.2 _ hx _ (List.mem_singleton_self _) rfl
    rw [lastWins_concat, ih h.1, upsert_of_notMem hx]

/-- Entries that are there already change nothing. -/
theorem foldl_upsert_of_mem {entries : List α} (hentries : (entries.map key).Nodup) : ∀ {l : List α}, (∀ x ∈ l, x ∈ entries) →
    l.foldl (fun entries x => upsert key x entries) entries = entries
  | [], _ => rfl
  | x :: l, h => by
    obtain ⟨hx, hl⟩ := List.forall_mem_cons.mp h
    rw [List.foldl_cons, upsert_of_mem hentries hx, foldl_upsert_of_mem hentries hl]

theorem map_lastWins_of_key {key' : β → κ} {f : α → β} (hf : ∀ x, key' (f x) = key x) (l : List α) :
    (lastWins key l).map f = lastWins key' (l.map f) := by
  induction l using List.reverseRecOn with
  | nil => rfl
  | append_singleton l x ih =>
    rw [lastWins_concat, map_upsert_of_key hf, ih, List.map_append, List.map_singleton, lastWins_concat]

end Firestone.Lib
