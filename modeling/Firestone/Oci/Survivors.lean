import Firestone.Oci.Emissions
import Mathlib.Data.List.TakeWhile

/-!
# The plan in terms of the layers

What pass two works from, said of the request alone: which member survives at a path is the overlay's answer
(`Survives`), a repaired hard link is one whose target no longer comes from its own layer while a regular file stood
there before it (`Repaired`), the first path with the same content leads the others (`Leads`), and the injected paths
are resolved through the symlinks that survive. `survives_iff`, `mode_relink_iff` and the lemmas beside them say that a
plan holds exactly this.
-/

namespace Firestone.Oci

open Firestone.Lib

section ops

variable (ops : HeaderOps) (request : MergeRequest)

/-- The member that survives at a path. -/
def Survives (p : Bytes) (k i : Nat) (it : TarItem) : Prop :=
  overlay (request.decoded ops) (components p) = some (k, i) ∧ request.item ops k i = some it

/-- A hard link that survives at a path, and its target. -/
structure LinksTo (p : Bytes) (k i : Nat) (it : TarItem) (t : Bytes) : Prop where
  survives : Survives ops request p k i it
  link : it.member.entryType = .link
  target : t ≠ [] ∧ components t = rawComponents (it.member.link.getD [])

/-- A hard link whose target does not survive from its own layer, and the last regular file that stood at the target
before it in that layer. -/
def Repaired (p : Bytes) (k o size : Nat) : Prop :=
  ∃ i it t source, LinksTo ops request p k i it t ∧ (∀ j, overlay (request.decoded ops) (components t) ≠ some (k, j)) ∧
    (request.decoded ops)[k]? = some source ∧ lastFile 0 (source.members.take i) (components t) = some (o, size)

/-- The first path that is repaired from a content. -/
def Leads (r : Bytes) (k o : Nat) : Prop :=
  (∃ size, Repaired ops request r k o size) ∧ ∀ q size, Repaired ops request q k o size → (compare r q).isLE = true

/-- A repaired link that is re-pointed at the one that leads. -/
def Relinked (p t : Bytes) : Prop :=
  ∃ k o size, Repaired ops request p k o size ∧ Leads ops request t k o ∧ t ≠ p ∧ t.length ≤ ustarLinkNameLimit

/-- A repaired link that carries its content itself. -/
def Promoted (p : Bytes) (k o size : Nat) : Prop :=
  Repaired ops request p k o size ∧ ∃ r, Leads ops request r k o ∧ (r = p ∨ ustarLinkNameLimit < r.length)

/-- The target of the symlink that survives at a path. -/
def symlinkAt (p : Bytes) : Option Bytes :=
  (overlay (request.decoded ops) (components p)).bind fun s =>
    (request.item ops s.1 s.2).bind fun it => if it.member.entryType = .symlink then it.member.link else none

/-- The injected paths, resolved through the symlinks that survive. -/
def MergeRequest.injected : List Bytes := injectedThrough request (symlinkAt ops request)

variable {ops request} {limits : MergeLimits} {plan : MergePlan} {p : Bytes}

/-! ## Entries -/

theorem classifyEntry_hardLink {t : EntryType} : classifyEntry t = .hardLink ↔ t = .link := by
  cases t <;> simp [classifyEntry]

theorem classifyEntry_symlink {t : EntryType} : classifyEntry t = .symlink ↔ t = .symlink := by
  cases t <;> simp [classifyEntry]

/-- An entry of a plan is made from the member that survives at its path. -/
structure Holding (ops : HeaderOps) (request : MergeRequest) (p : Bytes) (e : MergedEntry) (it : TarItem) : Prop where
  survives : Survives ops request p e.layer e.ordinal it
  entryOf : ∃ source, (request.decoded ops)[e.layer]? = some source ∧
    EntryOf (cursorLabel source e.layer) source.members e.layer p e it.view

theorem holding_of_entry (h : buildPlan limits (request.decoded ops) = .ok plan) {e : MergedEntry}
    (he : plan.entries[p]? = some e) : ∃ it, Holding ops request p e it := by
  obtain ⟨_, _, hfrom, _⟩ := buildPlan_entryOf h
  obtain ⟨source, m, hs, hentry⟩ := hfrom p e he
  obtain ⟨it, hit, rfl⟩ := MergeRequest.item_of_member hs hentry.member
  have hover := buildPlan_entries h p
  simp only [MergePlan.survivor, survivorAt, he, Option.map_some] at hover
  exact ⟨it, ⟨hover.symm, hit⟩, source, hs, hentry⟩

/-- What survives has an entry. -/
theorem entry_of_overlay (h : buildPlan limits (request.decoded ops) = .ok plan) {k i : Nat}
    (hs : overlay (request.decoded ops) (components p) = some (k, i)) :
    ∃ e, plan.entries[p]? = some e ∧ e.layer = k ∧ e.ordinal = i := by
  have hover := buildPlan_entries h p
  rw [hs, MergePlan.survivor, survivorAt] at hover
  obtain ⟨e, he, heq⟩ := Option.map_eq_some_iff.mp hover
  obtain ⟨rfl, rfl⟩ := Prod.mk.inj heq
  exact ⟨e, he, rfl, rfl⟩

theorem entry_of_survives (h : buildPlan limits (request.decoded ops) = .ok plan) {k i : Nat} {it : TarItem}
    (hs : Survives ops request p k i it) :
    ∃ e, plan.entries[p]? = some e ∧ e.layer = k ∧ e.ordinal = i ∧ Holding ops request p e it := by
  obtain ⟨e, he, rfl, rfl⟩ := entry_of_overlay h hs.1
  obtain ⟨it', hold⟩ := holding_of_entry h he
  obtain rfl : it' = it := Option.some.inj (hold.survives.2.symm.trans hs.2)
  exact ⟨e, he, rfl, rfl, hold⟩

theorem Holding.kind {e : MergedEntry} {it : TarItem} (h : Holding ops request p e it) :
    e.kind = classifyEntry it.member.entryType := by
  obtain ⟨source, _, hentry⟩ := h.entryOf
  exact hentry.kind

/-- The path of the member is the path it survives at. -/
theorem Holding.path {e : MergedEntry} {it : TarItem} (h : Holding ops request p e it) :
    rawComponents it.member.path = components p := by
  obtain ⟨source, _, hentry⟩ := h.entryOf
  exact hentry.adds.2

theorem Holding.linksTo {e : MergedEntry} {it : TarItem} (h : Holding ops request p e it) {t : Bytes} :
    (e.kind = .hardLink ∧ e.linkTarget = some t) ↔ LinksTo ops request p e.layer e.ordinal it t := by
  obtain ⟨source, hs, hentry⟩ := h.entryOf
  constructor
  · rintro ⟨hk, ht⟩
    rcases hardLinkTarget_ok hentry.link with ⟨hn, _⟩ | ⟨t', _, ht', hnorm⟩
    · exact absurd (hentry.kind.symm.trans hk) hn
    · rw [ht] at ht'
      cases ht'
      obtain ⟨hne, hc⟩ := normalizeLinkTarget_ok hnorm
      rw [rawComponents_slash] at hc
      exact ⟨h.survives, classifyEntry_hardLink.mp (h.kind.symm.trans hk), hne, hc⟩
  · rintro ⟨_, hl, hne, hc⟩
    have hk : e.kind = .hardLink := h.kind.trans (classifyEntry_hardLink.mpr hl)
    obtain ⟨t', ht', hraw⟩ := hentry.link_components hk
    refine ⟨hk, ?_⟩
    rw [ht', components_inj (hraw.symm.trans hc.symm)]

theorem Holding.symlink {e : MergedEntry} {it : TarItem} (h : Holding ops request p e it) :
    e.symlinkTarget = if it.member.entryType = .symlink then it.member.link else none := by
  obtain ⟨source, _, hentry⟩ := h.entryOf
  rw [hentry.symlink]
  show (if classifyEntry it.member.entryType = .symlink then it.member.link else none) = _
  by_cases hs : it.member.entryType = .symlink
  · rw [if_pos hs, if_pos (classifyEntry_symlink.mpr hs)]
  · rw [if_neg hs, if_neg fun hc => hs (classifyEntry_symlink.mp hc)]

/-- The plan resolves injected paths through the symlinks that survive. -/
theorem symlinkIn_eq (h : buildPlan limits (request.decoded ops) = .ok plan) :
    symlinkIn plan.entries = symlinkAt ops request := by
  funext p
  have hover := buildPlan_entries h p
  unfold symlinkIn symlinkAt
  rw [← hover, MergePlan.survivor, survivorAt]
  cases he : plan.entries[p]? with
  | none => rfl
  | some e =>
    obtain ⟨it, hold⟩ := holding_of_entry h he
    simp only [Option.bind_some, Option.map_some, hold.survives.2, hold.symlink]

theorem injectedPaths_eq (h : buildPlan limits (request.decoded ops) = .ok plan) :
    injectedPaths request plan.entries = request.injected ops := by
  rw [injectedPaths, symlinkIn_eq h]
  rfl

/-! ## Repairs -/

/-- An entry is repaired exactly when the layers say so. -/
theorem repairOf_iff (h : buildPlan limits (request.decoded ops) = .ok plan) {k o size : Nat} :
    (∃ e, plan.entries[p]? = some e ∧ repairOf plan.entries e = some (k, o, size)) ↔
      Repaired ops request p k o size := by
  constructor
  · rintro ⟨e, he, hr⟩
    obtain ⟨rfl, hk, hw, hlocal⟩ := repairOf_some.mp hr
    obtain ⟨it, hold⟩ := holding_of_entry h he
    obtain ⟨source, hs, hentry⟩ := hold.entryOf
    rw [hentry.localFile] at hlocal
    obtain ⟨t, ht, hlast⟩ := Option.bind_eq_some_iff.mp hlocal
    refine ⟨e.ordinal, it, t, source, hold.linksTo.mp ⟨hk, ht⟩, fun j hj => ?_, hs, hlast⟩
    obtain ⟨w, hget, hlayer, _⟩ := entry_of_overlay h hj
    rw [ht] at hw
    simp [hget, hlayer] at hw
  · rintro ⟨i, it, t, source, hlinks, hw, hs, hlast⟩
    obtain ⟨e, he, rfl, rfl, hold⟩ := entry_of_survives h hlinks.survives
    obtain ⟨hk, ht⟩ := hold.linksTo.mpr hlinks
    obtain ⟨source', hs', hentry⟩ := hold.entryOf
    rw [hs] at hs'
    cases hs'
    refine ⟨e, he, repairOf_some.mpr ⟨rfl, hk, ?_, by rw [hentry.localFile, ht]; exact hlast⟩⟩
    intro hany
    rw [ht, Option.bind_some] at hany
    obtain ⟨w, hget, hlayer⟩ := (Option.any_eq_true _ _).mp hany
    obtain ⟨itw, holdw⟩ := holding_of_entry h hget
    rw [decide_eq_true_eq] at hlayer
    exact hw w.ordinal (by rw [holdw.survives.1, hlayer])

/-- The first entry of a sorted map with a property is the least one. -/
theorem firstWith_iff (h : buildPlan limits (request.decoded ops) = .ok plan) {k o : Nat} {r : Bytes} :
    firstWith plan.entries plan.entries.toList k o = some r ↔ Leads ops request r k o := by
  have hsorted : plan.entries.toList.Pairwise fun a b => compare a.1 b.1 = .lt := Std.TreeMap.ordered_keys_toList
  have hforward : ∀ r, firstWith plan.entries plan.entries.toList k o = some r → Leads ops request r k o := by
    intro r hr
    obtain ⟨e, size, hmem, hrep⟩ := firstWith_some hr
    refine ⟨⟨size, (repairOf_iff h).mp ⟨e, Std.TreeMap.mem_toList_iff_getElem?_eq_some.mp hmem, hrep⟩⟩, ?_⟩
    intro q size' hq
    obtain ⟨e', he', hrep'⟩ := (repairOf_iff h).mpr hq
    unfold firstWith at hr
    obtain ⟨⟨r', e₀⟩, hfind, rfl⟩ := Option.map_eq_some_iff.mp hr
    obtain ⟨_, before, after, hl, hbefore⟩ := List.find?_eq_some_iff_append.mp hfind
    have hmem' : (q, e') ∈ plan.entries.toList := Std.TreeMap.mem_toList_iff_getElem?_eq_some.mpr he'
    rw [hl] at hmem' hsorted
    rcases List.mem_append.mp hmem' with hb | hb
    · exact absurd (hbefore _ hb) (by simp [hrep'])
    · rcases List.mem_cons.mp hb with heq | ha
      · cases heq
        simp
      · have hlt := List.rel_of_pairwise_cons (List.pairwise_append.mp hsorted).2.1 ha
        simp only at hlt
        rw [hlt]
        rfl
  refine ⟨hforward r, fun hr => ?_⟩
  obtain ⟨⟨size, hrep⟩, hleast⟩ := hr
  obtain ⟨e, he, hrepair⟩ := (repairOf_iff h).mpr hrep
  obtain ⟨r', hr'⟩ := firstWith_of_mem (Std.TreeMap.mem_toList_iff_getElem?_eq_some.mpr he) hrepair
  obtain ⟨⟨size', hrep'⟩, hleast'⟩ := hforward r' hr'
  have h1 := hleast r' size' hrep'
  have h2 := hleast' r size hrep
  rw [hr', Std.LawfulEqCmp.compare_eq_iff_eq.mp (Std.OrientedCmp.isLE_antisymm h2 h1)]

/-- The plan re-points exactly the links that the layers say. -/
theorem mode_relink_iff (h : buildPlan limits (request.decoded ops) = .ok plan) {e : MergedEntry} {t : Bytes}
    (he : plan.entries[p]? = some e) : plan.overrides[p]? = some (.relink t) ↔ Relinked ops request p t := by
  constructor
  · intro hm
    obtain ⟨k, o, size, hr, hfirst, hne, hlen⟩ := relink_target h he hm
    exact ⟨k, o, size, (repairOf_iff h).mp ⟨e, he, hr⟩, (firstWith_iff h).mp hfirst, hne, hlen⟩
  · rintro ⟨k, o, size, hrep, hleads, hne, hlen⟩
    obtain ⟨e', he', hr⟩ := (repairOf_iff h).mpr hrep
    rw [buildPlan_mode h he', hr]
    simp only [Option.map_some, (firstWith_iff h).mpr hleads, repairMode]
    rw [if_neg (by rintro (rfl | hlt); exacts [hne rfl, by omega])]

theorem mode_promote_iff (h : buildPlan limits (request.decoded ops) = .ok plan) {e : MergedEntry} {o size : Nat}
    (he : plan.entries[p]? = some e) :
    plan.overrides[p]? = some (.promote o size) ↔ Promoted ops request p e.layer o size := by
  constructor
  · intro hm
    have hr := repairOf_of_promote h he hm
    obtain ⟨r, hfirst⟩ := firstWith_of_mem (Std.TreeMap.mem_toList_iff_getElem?_eq_some.mpr he) hr
    refine ⟨(repairOf_iff h).mp ⟨e, he, hr⟩, r, (firstWith_iff h).mp hfirst, ?_⟩
    rw [buildPlan_mode h he, hr] at hm
    simp only [Option.map_some, hfirst, repairMode, Option.some.injEq] at hm
    by_contra hc
    rw [if_neg hc] at hm
    cases hm
  · rintro ⟨hrep, r, hleads, hcond⟩
    obtain ⟨e', he', hr⟩ := (repairOf_iff h).mpr hrep
    rw [buildPlan_mode h he', hr]
    simp only [Option.map_some, (firstWith_iff h).mpr hleads, repairMode, if_pos hcond]

theorem mode_none_iff (h : buildPlan limits (request.decoded ops) = .ok plan) {e : MergedEntry}
    (he : plan.entries[p]? = some e) :
    plan.overrides[p]? = none ↔ ∀ k o size, ¬Repaired ops request p k o size := by
  rw [buildPlan_mode h he, Option.map_eq_none_iff]
  constructor
  · intro hn k o size hrep
    obtain ⟨e', he', hr⟩ := (repairOf_iff h).mpr hrep
    rw [he] at he'
    cases he'
    rw [hn] at hr
    cases hr
  · intro hn
    cases hr : repairOf plan.entries e with
    | none => rfl
    | some r => exact absurd ((repairOf_iff h).mp ⟨e, he, hr⟩) (hn _ _ _)

/-! ## Slots -/

/-- Strictly before in the byte order of paths. -/
def PathLt (a b : Bytes) : Prop := compare a b = .lt

instance (a b : Bytes) : Decidable (PathLt a b) := inferInstanceAs (Decidable (_ = _))

theorem PathLt.trans {a b c : Bytes} (h : PathLt a b) (h' : PathLt b c) : PathLt a c := Std.TransCmp.lt_trans h h'

theorem PathLt.irrefl (a : Bytes) : ¬PathLt a a := by simp [PathLt]

theorem PathLt.of_isLE {a b : Bytes} (h : (compare a b).isLE = true) (hne : a ≠ b) : PathLt a b := by
  cases hc : compare a b with
  | lt => exact hc
  | eq => exact absurd (Std.LawfulEqCmp.compare_eq_iff_eq.mp hc) hne
  | gt => rw [hc] at h; cases h

theorem PathLt.of_not_isLE {a b : Bytes} (h : ¬(compare a b).isLE = true) : PathLt b a := by
  refine Std.OrientedCmp.lt_of_gt ?_
  cases hc : compare a b with
  | lt => rw [hc] at h; exact absurd rfl h
  | eq => rw [hc] at h; exact absurd rfl h
  | gt => rfl

theorem PathLt.of_isLE_of_lt {a b c : Bytes} (h : (compare a b).isLE = true) (h' : PathLt b c) : PathLt a c :=
  Std.TransCmp.lt_of_isLE_of_lt h h'

/-- The injected paths that are due at a path. -/
def duePaths (path : Bytes) (injected : List Bytes) : List Bytes :=
  injected.takeWhile fun p => (compare p path).isLE

theorem duePaths_append (path : Bytes) (injected : List Bytes) :
    duePaths path injected ++ injected.drop (duePaths path injected).length = injected :=
  List.prefix_iff_eq_append.mp (List.takeWhile_prefix _)

theorem isLE_of_mem_duePaths {path p : Bytes} {injected : List Bytes} (h : p ∈ duePaths path injected) :
    (compare p path).isLE = true :=
  List.mem_takeWhile_imp (p := fun p => (compare p path).isLE) h

/-- The injected paths that are not due at a path come after it. -/
theorem lt_of_mem_notDue (path : Bytes) : ∀ {injected : List Bytes}, injected.Pairwise PathLt →
    ∀ p ∈ injected.drop (duePaths path injected).length, PathLt path p := by
  intro injected
  induction injected with
  | nil => simp
  | cons q injected ih =>
    intro hsorted p hp
    obtain ⟨hq, hsorted⟩ := List.pairwise_cons.mp hsorted
    unfold duePaths at hp ih
    rw [List.takeWhile_cons] at hp
    split at hp
    · rw [List.length_cons, List.drop_succ_cons] at hp
      exact ih hsorted p hp
    · rename_i hle
      have hlt := PathLt.of_not_isLE hle
      rcases List.mem_cons.mp hp with rfl | hp
      · exact hlt
      · exact hlt.trans (hq p hp)

/-- The slots are the injected paths and the entries elsewhere. -/
theorem mem_interleave_iff {s : Slot} : ∀ {l : List (Bytes × MergedEntry)} {injected : List Bytes},
    l.Pairwise (fun a b => PathLt a.1 b.1) → injected.Pairwise PathLt →
    (s ∈ interleave injected l ↔
      (∃ p ∈ injected, s = .injected p) ∨ ∃ p e, s = .entry p e ∧ (p, e) ∈ l ∧ p ∉ injected) := by
  intro l
  induction l with
  | nil =>
    intro injected _ _
    simp only [interleave, List.mem_map, List.not_mem_nil, false_and, and_false, exists_false, or_false]
    constructor
    · rintro ⟨p, hp, h⟩
      exact ⟨p, hp, h.symm⟩
    · rintro ⟨p, hp, h⟩
      exact ⟨p, hp, h.symm⟩
  | cons x l ih =>
    intro injected hl hinj
    obtain ⟨path, entry⟩ := x
    obtain ⟨hx, hl⟩ := List.pairwise_cons.mp hl
    have hsplit := duePaths_append path injected
    have hlater := lt_of_mem_notDue path hinj
    have hdrop : (injected.drop (duePaths path injected).length).Pairwise PathLt := hinj.drop
    have hdue : path ∈ duePaths path injected ↔ path ∈ injected := by
      constructor
      · exact fun h => (List.takeWhile_sublist _).mem h
      · intro h
        rw [← hsplit] at h
        rcases List.mem_append.mp h with h | h
        · exact h
        · exact absurd (hlater path h) (PathLt.irrefl path)
    show s ∈ (duePaths path injected).map .injected ++ (if path ∈ duePaths path injected then [] else _) ++
      interleave (injected.drop (duePaths path injected).length) l ↔ _
    rw [List.mem_append, List.mem_append, ih hl hdrop]
    constructor
    · rintro ((h | h) | ⟨p, hp, rfl⟩ | ⟨p, e, rfl, hm, hn⟩)
      · obtain ⟨p, hp, rfl⟩ := List.mem_map.mp h
        exact Or.inl ⟨p, (List.takeWhile_sublist _).mem hp, rfl⟩
      · split at h
        · cases h
        · rename_i hnot
          exact Or.inr ⟨path, entry, List.mem_singleton.mp h, List.mem_cons_self, fun hc => hnot (hdue.mpr hc)⟩
      · exact Or.inl ⟨p, List.mem_of_mem_drop hp, rfl⟩
      · refine Or.inr ⟨p, e, rfl, List.mem_cons_of_mem _ hm, fun hc => ?_⟩
        rw [← hsplit] at hc
        rcases List.mem_append.mp hc with hc | hc
        · exact PathLt.irrefl p (PathLt.of_isLE_of_lt (isLE_of_mem_duePaths hc) (hx _ hm))
        · exact hn hc
    · rintro (⟨p, hp, rfl⟩ | ⟨p, e, rfl, hm, hn⟩)
      · rw [← hsplit] at hp
        rcases List.mem_append.mp hp with hp | hp
        · exact Or.inl (Or.inl (List.mem_map_of_mem hp))
        · exact Or.inr (Or.inl ⟨p, hp, rfl⟩)
      · rcases List.mem_cons.mp hm with heq | hm
        · cases heq
          refine Or.inl (Or.inr ?_)
          rw [if_neg fun h => hn (hdue.mp h)]
          exact List.mem_singleton_self _
        · exact Or.inr (Or.inr ⟨p, e, rfl, hm, fun hc => hn (List.mem_of_mem_drop hc)⟩)

/-- The slots come in the order of their paths, without a path twice. -/
theorem interleave_sorted : ∀ {l : List (Bytes × MergedEntry)} {injected : List Bytes},
    l.Pairwise (fun a b => PathLt a.1 b.1) → injected.Pairwise PathLt →
    (interleave injected l).Pairwise fun a b => PathLt a.path b.path := by
  intro l
  induction l with
  | nil =>
    intro injected _ hinj
    exact List.pairwise_map.mpr hinj
  | cons x l ih =>
    intro injected hl hinj
    obtain ⟨path, entry⟩ := x
    obtain ⟨hx, hl⟩ := List.pairwise_cons.mp hl
    have hlater := lt_of_mem_notDue path hinj
    have hdrop : (injected.drop (duePaths path injected).length).Pairwise PathLt := hinj.drop
    have hrest : ∀ s ∈ interleave (injected.drop (duePaths path injected).length) l, PathLt path s.path := by
      intro s hs
      rcases (mem_interleave_iff hl hdrop).mp hs with ⟨p, hp, rfl⟩ | ⟨p, e, rfl, hm, _⟩
      · exact hlater p hp
      · exact hx _ hm
    have hdue : ∀ s ∈ (duePaths path injected).map Slot.injected, (compare s.path path).isLE = true := by
      intro s hs
      obtain ⟨p, hp, rfl⟩ := List.mem_map.mp hs
      exact isLE_of_mem_duePaths hp
    show ((duePaths path injected).map Slot.injected ++ (if path ∈ duePaths path injected then [] else _) ++
      interleave (injected.drop (duePaths path injected).length) l).Pairwise _
    refine List.pairwise_append.mpr ⟨List.pairwise_append.mpr ⟨?_, ?_, ?_⟩, ih hl hdrop, ?_⟩
    · exact List.pairwise_map.mpr (hinj.sublist (List.takeWhile_sublist _))
    · split
      · exact List.Pairwise.nil
      · exact List.pairwise_singleton _ _
    · intro a ha b hb
      split at hb
      · cases hb
      · rename_i hnot
        rw [List.mem_singleton.mp hb]
        refine PathLt.of_isLE (hdue a ha) ?_
        rintro rfl
        obtain ⟨p, hp, rfl⟩ := List.mem_map.mp ha
        exact hnot hp
    · intro a ha b hb
      rcases List.mem_append.mp ha with ha | ha
      · exact PathLt.of_isLE_of_lt (hdue a ha) (hrest b hb)
      · split at ha
        · cases ha
        · rw [List.mem_singleton.mp ha]
          exact hrest b hb

/-- A resolved path ends in the name it started with. -/
theorem getLast?_resolveThrough (links : Bytes → Option Bytes) {path : Bytes}
    (hslash : slash ∉ (splitLastComponent path).2) (hne : (splitLastComponent path).2 ≠ []) :
    (components (resolveThrough links path)).getLast? = some (splitLastComponent path).2 := by
  unfold resolveThrough
  rw [(components_joinPath hslash hne).1]
  simp

theorem injectedThrough_sorted (request : MergeRequest) (links : Bytes → Option Bytes) :
    (injectedThrough request links).Pairwise PathLt := by
  unfold injectedThrough
  cases request.injectedInit with
  | none => exact List.Pairwise.nil
  | some _ =>
    have hmarker : (components (resolveThrough links firestoneOciMarkerPath)).getLast? = some (bytes "firestone-oci") :=
      getLast?_resolveThrough links (by decide) (by decide)
    have hinit : (components (resolveThrough links firestoneInitPath)).getLast? = some (bytes "firestone-init") :=
      getLast?_resolveThrough links (by decide) (by decide)
    have hne : resolveThrough links firestoneOciMarkerPath ≠ resolveThrough links firestoneInitPath := by
      intro h
      rw [h, hinit] at hmarker
      revert hmarker
      decide
    simp only
    split
    · rename_i hle
      exact List.pairwise_pair.mpr (PathLt.of_isLE hle hne)
    · rename_i hle
      exact List.pairwise_pair.mpr (PathLt.of_not_isLE hle)

theorem entries_sorted (entries : Entries) : entries.toList.Pairwise fun a b => PathLt a.1 b.1 :=
  Std.TreeMap.ordered_keys_toList

theorem slots_sorted (request : MergeRequest) (plan : MergePlan) :
    (slots request plan).Pairwise fun a b => PathLt a.path b.path :=
  interleave_sorted (entries_sorted plan.entries) (injectedThrough_sorted request _)

/-- The slots of a plan: the injected paths, and the entries at other paths. -/
theorem mem_slots_iff (h : buildPlan limits (request.decoded ops) = .ok plan) {s : Slot} : s ∈ slots request plan ↔
    (∃ p ∈ request.injected ops, s = .injected p) ∨
      ∃ p e, s = .entry p e ∧ plan.entries[p]? = some e ∧ p ∉ request.injected ops := by
  have hsorted : (request.injected ops).Pairwise PathLt := injectedThrough_sorted request _
  rw [slots, injectedPaths_eq h, mem_interleave_iff (entries_sorted plan.entries) hsorted]
  simp only [Std.TreeMap.mem_toList_iff_getElem?_eq_some]

end ops

end Firestone.Oci
