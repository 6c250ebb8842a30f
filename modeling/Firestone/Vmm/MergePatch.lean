import Firestone.Lib.JsonOrder
import Firestone.Vmm.Config

/-!
# The merge patch and the canonical form

The overlay of a spec is merged into the generated configuration as RFC 7396 has it, and the result is sorted, so that its
bytes can be compared.

* `MergePatch` — the rules of the RFC, as a relation between a target that may be missing, a patch and a result.
* `mergePatch_iff` — `applyMergePatch` computes the one result of the rules.
* `applyMergePatch_idem`, `null_of_applyMergePatch` — a patch applied again changes nothing, and it brings no null.
* `sortJson` — the canonical form.
* `applyMergePatch_exact` — all of it.

A decoded object has its members in key order. Sorting does not depend on that: the keys of an object need only be different.
-/

namespace Firestone.Vmm

open Firestone.Lib Firestone.Lib.Json

/-! ## The rules -/

/-- A patch that is no object is the result. A member of a patch object removes the member of the target when it is null,
and else is merged into it; the target counts as an empty object when it is none. -/
inductive MergePatch : Option Json → Json → Json → Prop
  | replace {target patch} : patch.isObject = false → MergePatch target patch patch
  | object {target patch result} (merged : String → Json) :
      (∀ k, patch.lookup k = none → result.lookup k = memberAt k target) →
      (∀ k, patch.lookup k = some .null → result.lookup k = none) →
      (∀ k v, patch.lookup k = some v → v ≠ .null → result.lookup k = some (merged k)) →
      (∀ k v, patch.lookup k = some v → v ≠ .null → MergePatch (memberAt k target) v (merged k)) →
      MergePatch target (.obj patch) (.obj result)

/-- The value at the end of some keys. -/
@[grind =] def atKeys (v : Json) : List String → Option Json
  | [] => some v
  | k :: ks => (v.members.lookup k).bind fun child => atKeys child ks

/-- `sort_json`: the emptied object is filled again in the order of the sorted entries. -/
def sortJson (value : Json) : Json := value.sort

/-! ## One member -/

section Members

variable {patch target : List (String × Json)} {k : String} {v : Json}

theorem patchAt_of_notMem : ∀ {patch : List (String × Json)} {x : Option Json}, k ∉ patch.map Prod.fst →
    patchAt k patch x = x
  | [], _, _ => rfl
  | (key, value) :: rest, x, h => by
    rw [List.map_cons, List.mem_cons, not_or] at h
    rw [patchAt, if_neg fun heq => h.1 heq.symm, patchAt_of_notMem h.2]

/-- A key of a patch is met once. -/
theorem patchAt_of_lookup : ∀ {patch : List (String × Json)} {x : Option Json}, (patch.map Prod.fst).Nodup →
    patch.lookup k = some v →
    patchAt k patch x = if v = .null then none else some (applyMergePatch (x.getD .null) v)
  | [], _, _, h => by cases h
  | (key, value) :: rest, x, hkeys, h => by
    obtain ⟨hnew, hrest⟩ := List.nodup_cons.mp hkeys
    rw [List.lookup_cons] at h
    rw [patchAt]
    by_cases hk : k = key
    · subst hk
      rw [beq_self_eq_true] at h
      cases h
      rw [if_pos rfl, patchAt_of_notMem hnew]
    · rw [beq_eq_false_iff_ne.mpr hk] at h
      rw [if_neg fun heq => hk heq.symm, patchAt_of_lookup hrest h]

theorem lookup_merge_none (h : patch.lookup k = none) : (mergeMembers target patch).lookup k = target.lookup k := by
  rw [lookup_mergeMembers, patchAt_of_notMem]
  intro hmem
  obtain ⟨⟨key, value⟩, hx, rfl⟩ := List.mem_map.mp hmem
  exact bne_iff_ne.mp (List.lookup_eq_none_iff.mp h _ hx) rfl

theorem lookup_merge_null (hkeys : (patch.map Prod.fst).Nodup) (h : patch.lookup k = some .null) :
    (mergeMembers target patch).lookup k = none := by
  rw [lookup_mergeMembers, patchAt_of_lookup hkeys h, if_pos rfl]

theorem lookup_merge_some (hkeys : (patch.map Prod.fst).Nodup) (h : patch.lookup k = some v) (hv : v ≠ .null) :
    (mergeMembers target patch).lookup k = some (applyMergePatch ((target.lookup k).getD .null) v) := by
  rw [lookup_mergeMembers, patchAt_of_lookup hkeys h, if_neg hv]

end Members

/-! ## The whole value -/

section Values

variable {target patch result : Json}

theorem applyMergePatch_of_not_object (h : patch.isObject = false) : applyMergePatch target patch = patch := by
  cases patch with
  | obj members => cases h
  | _ => rfl

/-- A missing target is patched as null is. -/
theorem members_getD (k : String) (target : Option Json) : (target.getD .null).members.lookup k = memberAt k target := by
  cases target <;> rfl

theorem applyMergePatch_mergePatch {patch : Json} (h : Distinct patch) :
    ∀ target : Option Json, MergePatch target patch (applyMergePatch (target.getD .null) patch) := by
  induction h with
  | @atom patch h =>
    intro target
    have hobject : patch.isObject = false := by
      cases patch with
      | obj members => cases h
      | _ => rfl
    rw [applyMergePatch_of_not_object hobject]
    exact .replace hobject
  | arr _ _ => exact fun target => .replace rfl
  | @obj members hkeys _ ih =>
    intro target
    rw [applyMergePatch]
    refine .object (fun k => applyMergePatch ((memberAt k target).getD .null) ((members.lookup k).getD .null))
      (fun k hk => ?_) (fun k hk => lookup_merge_null hkeys hk) (fun k v hk hv => ?_) fun k v hk _ => ?_
    · rw [lookup_merge_none hk, members_getD]
    · rw [lookup_merge_some hkeys hk hv, members_getD, hk, Option.getD_some]
    · rw [hk, Option.getD_some]
      exact ih (k, v) (mem_of_lookup hk) (memberAt k target)

/-- The rules leave no choice but the order of keys. -/
theorem MergePatch.eq {target : Option Json} {patch r r' : Json} (h : MergePatch target patch r)
    (h' : MergePatch target patch r') (hr : Ordered r) (hr' : Ordered r') : r = r' := by
  induction h generalizing r' with
  | replace hobject =>
    cases h' with
    | replace _ => rfl
    | object => cases hobject
  | @object target patch result merged hnone hnull hsome _ ih =>
    cases h' with
    | replace hobject => cases hobject
    | @object _ _ result' merged' hnone' hnull' hsome' hmerged' =>
      congr 1
      refine (everywhere_obj.mp hr).1.ext (everywhere_obj.mp hr').1 fun k => ?_
      cases hk : patch.lookup k with
      | none => rw [hnone k hk, hnone' k hk]
      | some v =>
        by_cases hv : v = .null
        · subst hv
          rw [hnull k hk, hnull' k hk]
        · have hx := hsome k v hk hv
          have hx' := hsome' k v hk hv
          rw [hx, hx', ih k v hk hv (hmerged' k v hk hv) (hr.lookup hx) (hr'.lookup hx')]

theorem applyMergePatch_ordered (htarget : Ordered target) (hpatch : Ordered patch) :
    Ordered (applyMergePatch target patch) := by
  induction hpatch generalizing target with
  | @atom patch h =>
    have hobject : patch.isObject = false := by
      cases patch with
      | obj members => cases h
      | _ => rfl
    rw [applyMergePatch_of_not_object hobject]
    exact .atom h
  | arr h _ => exact .arr h
  | @obj members hsorted _ ih =>
    have hmembers : MembersSorted target.members ∧ ∀ x ∈ target.members, Ordered x.2 := by
      cases target with
      | obj members => exact everywhere_obj.mp htarget
      | _ => exact ⟨.nil, by simp [Json.members]⟩
    rw [applyMergePatch]
    refine .obj (mergeMembers_sorted hmembers.1) fun x hx => ?_
    have hlookup := lookup_of_mem (mergeMembers_sorted hmembers.1) (show (x.1, x.2) ∈ _ from hx)
    have hchild : ∀ k, Ordered ((target.members.lookup k).getD .null) := by
      intro k
      cases hk : target.members.lookup k with
      | none => exact .atom rfl
      | some child => exact hmembers.2 (k, child) (mem_of_lookup hk)
    cases hk : members.lookup x.1 with
    | none =>
      rw [lookup_merge_none hk] at hlookup
      exact hmembers.2 (x.1, x.2) (mem_of_lookup hlookup)
    | some v =>
      by_cases hv : v = .null
      · subst hv
        rw [lookup_merge_null hsorted.keys_nodup hk] at hlookup
        cases hlookup
      · rw [lookup_merge_some hsorted.keys_nodup hk hv, Option.some.injEq] at hlookup
        rw [← hlookup]
        exact ih (x.1, v) (mem_of_lookup hk) (hchild x.1)

theorem mergePatch_iff (htarget : Ordered target) (hpatch : Ordered patch) (hresult : Ordered result) :
    MergePatch (some target) patch result ↔ result = applyMergePatch target patch := by
  have hcode : MergePatch (some target) patch (applyMergePatch target patch) :=
    applyMergePatch_mergePatch hpatch.distinct (some target)
  constructor
  · exact fun h => h.eq hcode hresult (applyMergePatch_ordered htarget hpatch)
  · rintro rfl
    exact hcode

/-- A patch that is applied again changes nothing. -/
theorem applyMergePatch_idem (htarget : Ordered target) (hpatch : Ordered patch) :
    applyMergePatch (applyMergePatch target patch) patch = applyMergePatch target patch := by
  induction hpatch generalizing target with
  | @atom patch h =>
    cases patch with
    | obj members => cases h
    | _ => rfl
  | arr _ _ => rfl
  | @obj members hsorted hall ih =>
    have hpatch : Ordered (.obj members) := .obj hsorted hall
    have honce := applyMergePatch_ordered htarget hpatch
    have htwice := applyMergePatch_ordered honce hpatch
    rw [applyMergePatch, applyMergePatch] at *
    congr 1
    refine (everywhere_obj.mp htwice).1.ext (everywhere_obj.mp honce).1 fun k => ?_
    cases hk : members.lookup k with
    | none => rw [lookup_merge_none hk, Json.members]
    | some v =>
      by_cases hv : v = .null
      · subst hv
        rw [lookup_merge_null hsorted.keys_nodup hk, lookup_merge_null hsorted.keys_nodup hk]
      · have hchild : Ordered ((target.members.lookup k).getD .null) := by
          cases hc : target.members.lookup k with
          | none => exact .atom rfl
          | some child =>
            cases target with
            | obj others => exact htarget.lookup hc
            | _ => cases hc
        rw [lookup_merge_some hsorted.keys_nodup hk hv, lookup_merge_some hsorted.keys_nodup hk hv, Json.members,
          lookup_merge_some hsorted.keys_nodup hk hv, Option.getD_some, ih (k, v) (mem_of_lookup hk) hchild]

theorem applyMergePatch_ne_null (h : patch ≠ .null) : applyMergePatch target patch ≠ .null := by
  cases patch with
  | null => exact absurd rfl h
  | _ => exact nofun

/-- A null in the result comes from the target, or from below a member of the patch. -/
theorem atKeys_applyMergePatch {members : List (String × Json)} (hkeys : (members.map Prod.fst).Nodup) {k : String}
    {ks : List String} (h : atKeys (applyMergePatch target (.obj members)) (k :: ks) = some .null) :
    atKeys target (k :: ks) = some .null ∨ ∃ v, members.lookup k = some v ∧ v ≠ .null ∧
      atKeys (applyMergePatch ((target.members.lookup k).getD .null) v) ks = some .null := by
  rw [applyMergePatch, atKeys, Json.members] at h
  cases hk : members.lookup k with
  | none =>
    rw [lookup_merge_none hk] at h
    exact .inl h
  | some v =>
    by_cases hv : v = .null
    · subst hv
      rw [lookup_merge_null hkeys hk] at h
      cases h
    · rw [lookup_merge_some hkeys hk hv] at h
      exact .inr ⟨v, rfl, hv, h⟩

/-- A null in the result below an object was in the target. -/
theorem null_of_applyMergePatch (hpatch : Distinct patch) {k : String} {ks : List String}
    (h : atKeys (applyMergePatch target patch) (k :: ks) = some .null) : atKeys target (k :: ks) = some .null := by
  induction ks generalizing k target patch with
  | nil =>
    cases patch with
    | obj members =>
      obtain htarget | ⟨v, _, hv, hchild⟩ := atKeys_applyMergePatch (everywhere_obj.mp hpatch).1 h
      · exact htarget
      · exact absurd (Option.some.inj hchild) (applyMergePatch_ne_null hv)
    | _ => cases h
  | cons k' ks ih =>
    cases patch with
    | obj members =>
      obtain htarget | ⟨v, hk, _, hchild⟩ := atKeys_applyMergePatch (everywhere_obj.mp hpatch).1 h
      · exact htarget
      · have hbelow := ih (hpatch.lookup hk) hchild
        -- a member that is missing has no members of its own
        cases hc : target.members.lookup k with
        | none =>
          rw [hc] at hbelow
          cases hbelow
        | some child =>
          rw [hc] at hbelow
          rw [atKeys, hc]
          exact hbelow
    | _ => cases h

end Values

/-! ## The canonical form -/

/-- A value as a decoder builds it. -/
abbrev Value := { v : Json // Ordered v }

/-- **Merging and sorting**: the overlay is merged as RFC 7396 has it, once is as good as twice, and no null comes from the
patch; sorting changes the order of keys only, puts every object in key order, and what is the same up to that order gets
the same bytes. -/
theorem applyMergePatch_exact :
    (∀ target patch : Value, Ordered (applyMergePatch target patch) ∧
      (∀ result : Value, MergePatch (some target.val) patch result ↔ result.val = applyMergePatch target patch) ∧
      applyMergePatch (applyMergePatch target patch) patch = applyMergePatch target patch ∧
      ∀ k ks, atKeys (applyMergePatch target patch) (k :: ks) = some .null → atKeys target (k :: ks) = some .null) ∧
    (∀ v : { v : Json // Distinct v }, SameValue v (sortJson v) ∧ Ordered (sortJson v)) ∧
    ∀ (v w : { v : Json // Distinct v }) (toVec : Json → List UInt8), SameValue v w →
      toVec (sortJson v) = toVec (sortJson w) := by
  refine ⟨fun target patch => ⟨applyMergePatch_ordered target.2 patch.2, fun result => ?_, ?_, fun k ks => ?_⟩,
    fun v => ⟨sort_same v.2, sort_ordered v.2⟩, fun v w toVec h => ?_⟩
  · exact mergePatch_iff target.2 patch.2 result.2
  · exact applyMergePatch_idem target.2 patch.2
  · exact null_of_applyMergePatch patch.2.distinct
  · rw [sortJson, sortJson, sort_congr h v.2 w.2]

end Firestone.Vmm
