import Firestone.Oci.Layers
import Mathlib.Data.List.Perm.Basic

/-!
# The overlay a layer merge computes

The reference: fold the layers from the lowest to the highest over a map from paths (lists of components) to
`(layer, ordinal)`. A layer first deletes from what is accumulated

* everything strictly below a directory with an opaque marker,
* the target of a whiteout and everything strictly below it,
* everything strictly below an ordinary member that is not a directory,

and then adds its ordinary members, the last one winning at a repeated path (`overlayLayer`).

`build_plan` interleaves the two phases member by member, guards deletions by the layer number, and finds subtrees by a
byte-wise range scan. The invariant `Reached` says what its map holds after any number of members of a layer;
`buildPlan_entries` is the refinement, and `overlay_perm` the independence of the member order.
-/

namespace Firestone.Oci

open Firestone.Lib

/-! ## The reference -/

/-- The components of a raw member path; the archive root has none. -/
def rawComponents (raw : Bytes) : List Bytes := (raw.splitOn slash).filter fun c => c ≠ [] ∧ c ≠ dot

/-- The components of a map key. -/
def components (path : Bytes) : List Bytes := if path = [] then [] else path.splitOn slash

/-- `q` lies strictly below `p`. -/
def StrictlyBelow (p q : List Bytes) : Prop := p <+: q ∧ p ≠ q

instance (p q : List Bytes) : Decidable (StrictlyBelow p q) := inferInstanceAs (Decidable (_ ∧ _))

/-- What a member's path asks of the lower layers. -/
inductive Mark
  | root
  | opq (dir : List Bytes)
  | whiteout (target : List Bytes)
  | ordinary
  deriving DecidableEq

/-- Reads the mark off the last component. -/
def markOf (path : List Bytes) : Mark :=
  match path.getLast? with
  | none => .root
  | some name =>
    if name = opaqueMarker then .opq path.dropLast
    else match stripStem whiteoutStem name with
      | some removed => .whiteout (path.dropLast ++ [removed])
      | none => .ordinary

/-- The member deletes what lower layers hold at `q`. -/
def Member.Deletes (m : Member) (q : List Bytes) : Prop :=
  match markOf (rawComponents m.path) with
  | .root => False
  | .opq dir => StrictlyBelow dir q
  | .whiteout target => q = target ∨ StrictlyBelow target q
  | .ordinary => m.entryType ≠ .directory ∧ StrictlyBelow (rawComponents m.path) q

instance (m : Member) (q : List Bytes) : Decidable (m.Deletes q) := by
  unfold Member.Deletes
  exact match markOf (rawComponents m.path) with
    | .root => inferInstanceAs (Decidable False)
    | .opq _ => inferInstanceAs (Decidable (StrictlyBelow _ _))
    | .whiteout _ => inferInstanceAs (Decidable (_ ∨ _))
    | .ordinary => inferInstanceAs (Decidable (_ ∧ _))

/-- The member adds an entry at `q`. -/
def Member.Adds (m : Member) (q : List Bytes) : Prop :=
  markOf (rawComponents m.path) = .ordinary ∧ rawComponents m.path = q

instance (m : Member) (q : List Bytes) : Decidable (m.Adds q) := inferInstanceAs (Decidable (_ ∧ _))

/-- The ordinal of the last member, counting from `i`, that adds an entry at `q`. -/
@[grind =] def lastAdds : Nat → List Member → List Bytes → Option Nat
  | _, [], _ => none
  | i, m :: ms, q => (lastAdds (i + 1) ms q).or (if m.Adds q then some i else none)

/-- A map from paths to the layer and the ordinal of the member that survives there. -/
abbrev Survivors := List Bytes → Option (Nat × Nat)

/-- One layer of the reference: delete from the lower layers, then add. -/
def overlayLayer (k : Nat) (ms : List Member) (lower : Survivors) : Survivors := fun q =>
  let kept := if ∃ m ∈ ms, m.Deletes q then none else lower q
  ((lastAdds 0 ms q).map (k, ·)).or kept

/-- The layers from number `k` on, laid over what lies below them. -/
@[grind =] def overlayFrom : Nat → List DecodedLayer → Survivors → Survivors
  | _, [], lower => lower
  | k, source :: sources, lower => overlayFrom (k + 1) sources (overlayLayer k source.members lower)

/-- The reference overlay of a list of layers. -/
def overlay (layers : List DecodedLayer) : Survivors := overlayFrom 0 layers fun _ => none

/-- The layer and the ordinal a path map keeps at a path. -/
def survivorAt (entries : Entries) (path : Bytes) : Option (Nat × Nat) :=
  entries[path]?.map fun e => (e.layer, e.ordinal)

/-- The layer and the ordinal a plan keeps at a path. -/
def MergePlan.survivor (plan : MergePlan) (path : Bytes) : Option (Nat × Nat) := survivorAt plan.entries path

/-- The layer and the member itself a plan keeps at a path. -/
def MergePlan.member (plan : MergePlan) (layers : List DecodedLayer) (path : Bytes) : Option (Nat × Member) :=
  (plan.survivor path).bind fun s => ((layers[s.1]?).bind (·.members[s.2]?)).map (s.1, ·)

/-! ## Keys and components -/

theorem components_of_ne {p : Bytes} (h : p ≠ []) : components p = p.splitOn slash := if_neg h

theorem components_nil : components [] = [] := rfl

/-- A key is determined by its components. -/
theorem components_inj {p q : Bytes} (h : components p = components q) : p = q := by
  by_cases hp : p = []
  · by_cases hq : q = []
    · rw [hp, hq]
    · rw [hp, components_nil, components_of_ne hq] at h
      exact absurd h.symm (List.splitOn_ne_nil slash q)
  · by_cases hq : q = []
    · rw [hq, components_nil, components_of_ne hp] at h
      exact absurd h (List.splitOn_ne_nil slash p)
    · rw [components_of_ne hp, components_of_ne hq] at h
      rw [← @List.intercalate_splitOn _ p _ _ slash, h, List.intercalate_splitOn]

theorem strictlyBelow_iff {p q : List Bytes} : StrictlyBelow p q ↔ ∃ rest ≠ [], q = p ++ rest := by
  constructor
  · rintro ⟨⟨rest, rfl⟩, hne⟩
    exact ⟨rest, fun h => hne (by simp [h]), rfl⟩
  · rintro ⟨rest, hne, rfl⟩
    exact ⟨⟨rest, rfl⟩, fun h => hne (by simpa using h)⟩

/-- The byte-wise stem of a subtree finds exactly the keys strictly below its path. -/
theorem subtreeStem_iff {p q : Bytes} (hq : q ≠ []) :
    subtreeStem p <+: q ↔ StrictlyBelow (components p) (components q) := by
  rw [strictlyBelow_iff]
  unfold subtreeStem
  by_cases hp : p = []
  · subst hp
    simp only [List.isEmpty_nil, if_true, components_nil, List.nil_append]
    exact ⟨fun _ => ⟨components q, by rw [components_of_ne hq]; exact List.splitOn_ne_nil slash q, rfl⟩,
      fun _ => List.nil_prefix⟩
  · rw [if_neg (by simpa using hp), components_of_ne hp, components_of_ne hq, stem_sep_iff]

/-! ## Normalization -/

theorem keepComponents_eq : ∀ {cs ks : List Bytes}, keepComponents cs = some ks →
    ks = cs.filter fun c => c ≠ [] ∧ c ≠ dot
  | [], ks, h => by
    simp only [keepComponents, Option.some.injEq] at h
    exact h.symm
  | c :: cs, ks, h => by
    unfold keepComponents at h
    split at h
    · rename_i hc
      rw [keepComponents_eq h, List.filter_cons_of_neg]
      simp only [decide_eq_true_eq]
      tauto
    · rename_i hc
      split at h
      · cases h
      · obtain ⟨ks', hk, rfl⟩ := Option.map_eq_some_iff.mp h
        rw [keepComponents_eq hk, List.filter_cons_of_pos]
        simp only [decide_eq_true_eq]
        tauto

/-- The kept components of a path that normalizes. -/
theorem normalizeRelative_ok {raw : Bytes} {layer : String} {r : Option Bytes}
    (h : normalizeRelative raw layer = .ok r) :
    (r = none ∧ rawComponents raw = []) ∨ ∃ p, r = some p ∧ p ≠ [] ∧ components p = rawComponents raw := by
  unfold normalizeRelative at h
  split at h
  · cases h
  split at h
  · cases h
  cases hk : keepComponents (raw.splitOn slash) with
  | none => rw [hk] at h; cases h
  | some ks =>
    have hks : ks = rawComponents raw := keepComponents_eq hk
    rw [hk] at h
    cases ks with
    | nil =>
      cases h
      exact Or.inl ⟨rfl, hks.symm⟩
    | cons c cs =>
      cases h
      have hmem : ∀ d ∈ c :: cs, slash ∉ d ∧ d ≠ [] := by
        intro d hd
        rw [hks] at hd
        obtain ⟨hd, hne⟩ := List.mem_filter.mp hd
        exact ⟨notMem_of_mem_splitOn hd, (of_decide_eq_true hne).1⟩
      have hsplit : ([slash].intercalate (c :: cs)).splitOn slash = c :: cs :=
        List.splitOn_intercalate slash (fun d hd => (hmem d hd).1) (by simp)
      have hne : [slash].intercalate (c :: cs) ≠ [] := by
        intro e
        rw [e] at hsplit
        have : c = [] := by
          have h0 : ([] : Bytes).splitOn slash = [[]] := rfl
          rw [h0] at hsplit
          exact (List.cons.inj hsplit).1.symm
        exact (hmem c List.mem_cons_self).2 this
      exact Or.inr ⟨_, rfl, hne, by rw [components_of_ne hne, hsplit, hks]⟩

/-- Entry paths normalize to their components. -/
theorem normalizeEntryPath_ok {raw : Bytes} {layer : String} {r : Option Bytes}
    (h : normalizeEntryPath raw layer = .ok r) :
    (r = none ∧ rawComponents raw = []) ∨ ∃ p, r = some p ∧ p ≠ [] ∧ components p = rawComponents raw := by
  unfold normalizeEntryPath at h
  split at h
  · cases h
  · exact normalizeRelative_ok h

/-! ## Marks -/

/-- A path without a separator is one component; any other path splits at its last separator. -/
theorem splitLastComponent_cases (p : Bytes) :
    (slash ∉ p ∧ splitLastComponent p = ([], p)) ∨
      ∃ a b, p = a ++ slash :: b ∧ slash ∉ b ∧ splitLastComponent p = (a, b) := by
  unfold splitLastComponent
  cases h : p.reverse.idxOf? slash with
  | none =>
    rw [List.idxOf?_eq_none_iff, List.mem_reverse] at h
    exact Or.inl ⟨h, rfl⟩
  | some i =>
    obtain ⟨u, v, huv, rfl, hu⟩ := split_at_idxOf? h
    have hp : p = v.reverse ++ slash :: u.reverse := by
      rw [← List.reverse_reverse p, huv]; simp
    refine Or.inr ⟨v.reverse, u.reverse, hp, by simpa using hu, ?_⟩
    have hlen : p.length = v.length + u.length + 1 := by rw [hp]; simp; omega
    have h1 : p.length - 1 - u.length = v.reverse.length := by rw [List.length_reverse]; omega
    have h2 : p.length - u.length = (v.reverse ++ [slash]).length := by simp; omega
    have hp' : p = (v.reverse ++ [slash]) ++ u.reverse := by rw [hp]; simp
    refine Prod.ext ?_ ?_
    · show p.take (p.length - 1 - u.length) = v.reverse
      rw [h1, hp, List.take_left]
    · show p.drop (p.length - u.length) = u.reverse
      rw [h2, hp', List.drop_left]

/-- The parent and the last component of a key whose components are not empty. -/
theorem splitLastComponent_components {p : Bytes} (hp : p ≠ []) (hne : [] ∉ components p) :
    components p = components (splitLastComponent p).1 ++ [(splitLastComponent p).2] ∧
      slash ∉ (splitLastComponent p).2 := by
  rw [components_of_ne hp] at hne ⊢
  rcases splitLastComponent_cases p with ⟨hs, h⟩ | ⟨a, b, rfl, hb, h⟩
  · rw [h, List.splitOn_eq_singleton hs]
    exact ⟨rfl, hs⟩
  · rw [List.splitOn_append_cons_self, List.splitOn_eq_singleton hb] at hne ⊢
    rw [h]
    refine ⟨?_, hb⟩
    by_cases ha : a = []
    · exact absurd (by simp [ha, List.splitOn, List.splitOnP, List.splitOnPPrepend]) hne
    · rw [components_of_ne ha]

/-- The components of a joined path. -/
theorem components_joinPath {parent name : Bytes} (hname : slash ∉ name) (hne : name ≠ []) :
    components (joinPath parent name) = components parent ++ [name] ∧ joinPath parent name ≠ [] := by
  unfold joinPath
  by_cases hp : parent = []
  · subst hp
    rw [List.isEmpty_nil, if_pos rfl, components_of_ne hne, List.splitOn_eq_singleton hname]
    exact ⟨rfl, hne⟩
  · have h : parent ++ slash :: name ≠ [] := by simp
    rw [if_neg (by simpa using hp), components_of_ne h, components_of_ne hp, List.splitOn_append_cons_self,
      List.splitOn_eq_singleton hname]
    exact ⟨rfl, h⟩

theorem markOf_append (dir : List Bytes) (name : Bytes) : markOf (dir ++ [name]) =
    if name = opaqueMarker then .opq dir
    else match stripStem whiteoutStem name with
      | some removed => .whiteout (dir ++ [removed])
      | none => .ordinary := by
  simp [markOf]

/-- Raw components are never empty. -/
theorem nil_not_mem_rawComponents (raw : Bytes) : [] ∉ rawComponents raw := by
  simp [rawComponents]

/-! ## One deletion -/

section Drop

variable {entries : Entries} {path q : Bytes} {layer : Nat} {incl : Bool}

/-- The keys a deletion removes: lower-layer entries at the path, when it is included, and strictly below it. -/
theorem mem_doomed (hq : q ≠ []) : q ∈ doomed entries path layer incl ↔
    (∃ e, entries[q]? = some e ∧ e.layer < layer) ∧
      ((incl = true ∧ q = path) ∨ StrictlyBelow (components path) (components q)) := by
  have hscan : q ∈ ((scanFrom entries (subtreeStem path)).filter (·.2.layer < layer)).map (·.1) ↔
      (∃ e, entries[q]? = some e ∧ e.layer < layer) ∧ StrictlyBelow (components path) (components q) := by
    rw [← subtreeStem_iff hq, List.mem_map]
    constructor
    · rintro ⟨⟨k, e⟩, hm, rfl⟩
      obtain ⟨hm, hl⟩ := List.mem_filter.mp hm
      obtain ⟨he, hs⟩ := mem_scanFrom.mp hm
      exact ⟨⟨e, he, by simpa using hl⟩, hs⟩
    · rintro ⟨⟨e, he, hl⟩, hs⟩
      exact ⟨(q, e), List.mem_filter.mpr ⟨mem_scanFrom.mpr ⟨he, hs⟩, by simpa using hl⟩, rfl⟩
  have hself : q ∈ (if incl && !path.isEmpty && (entries[path]?).any (·.layer < layer) then [path] else []) ↔
      (∃ e, entries[q]? = some e ∧ e.layer < layer) ∧ incl = true ∧ q = path := by
    constructor
    · intro h
      split at h
      · rename_i hc
        obtain rfl := List.mem_singleton.mp h
        simp only [Bool.and_eq_true, Option.any_eq_true, decide_eq_true_eq] at hc
        exact ⟨hc.2, hc.1.1, rfl⟩
      · simp at h
    · rintro ⟨⟨e, he, hl⟩, hi, rfl⟩
      rw [if_pos (by simp [hi, he, hl, hq])]
      exact List.mem_singleton_self q
  rw [doomed, List.mem_append, hscan, hself, ← and_or_left]

/-- A deletion removes the doomed keys and keeps every other entry. -/
theorem getElem?_dropLowerSubtree (hroot : entries[([] : Bytes)]? = none) :
    (dropLowerSubtree entries path layer incl)[q]? = none ∧ (∃ e, entries[q]? = some e ∧ e.layer < layer) ∧
        ((incl = true ∧ q = path) ∨ StrictlyBelow (components path) (components q)) ∨
      (dropLowerSubtree entries path layer incl)[q]? = entries[q]? ∧
        ¬((∃ e, entries[q]? = some e ∧ e.layer < layer) ∧
          ((incl = true ∧ q = path) ∨ StrictlyBelow (components path) (components q))) := by
  have h := getElem?_eraseAll q (doomed entries path layer incl) entries
  by_cases hq : q = []
  · subst hq
    refine Or.inr ⟨?_, fun hc => by obtain ⟨⟨e, he, _⟩, _⟩ := hc; rw [hroot] at he; cases he⟩
    by_cases hm : [] ∈ doomed entries path layer incl
    · rw [hroot]; exact h.1 hm
    · exact h.2 hm
  · by_cases hm : q ∈ doomed entries path layer incl
    · exact Or.inl ⟨h.1 hm, (mem_doomed hq).mp hm⟩
    · exact Or.inr ⟨h.2 hm, fun hc => hm ((mem_doomed hq).mpr hc)⟩

end Drop

/-! ## One member -/

section Step

variable {st st' : LayerPass} {k b : Nat} {label : String} {m : Member} {limits : MergeLimits}

/-- An entry names the layer and the ordinal of its member. -/
theorem mergedEntry_ok {n : Nat} {lf : List (Bytes × (Nat × Nat))} {e : MergedEntry}
    (h : mergedEntry k n label m lf = .ok e) : e.layer = k ∧ e.ordinal = n := by
  obtain ⟨_, _, h⟩ := Res.bind_ok h
  cases h
  exact ⟨rfl, rfl⟩

/-- The mark of a normalized path decides what the member does to the path map. -/
theorem mergePath_ok {p : Bytes} {es : Entries} {lf : List (Bytes × (Nat × Nat))} (hp : p ≠ [])
    (hc : components p = rawComponents m.path) (h : mergePath st k label m p = .ok (es, lf)) :
    (∃ dir, markOf (rawComponents m.path) = .opq (components dir) ∧ es = dropLowerSubtree st.entries dir k false) ∨
    (∃ target, markOf (rawComponents m.path) = .whiteout (components target) ∧
      es = dropLowerSubtree st.entries target k true) ∨
    (markOf (rawComponents m.path) = .ordinary ∧ ∃ e : MergedEntry, e.layer = k ∧ e.ordinal = st.nextOrdinal ∧
      es = (if m.entryType = .directory then st.entries else dropLowerSubtree st.entries p k false).insert p e) := by
  have hne : [] ∉ components p := by rw [hc]; exact nil_not_mem_rawComponents _
  obtain ⟨hsplit, hslash⟩ := splitLastComponent_components hp hne
  unfold mergePath at h
  simp only at h
  rw [← hc, hsplit, markOf_append]
  split at h
  · rename_i ho
    cases h
    exact Or.inl ⟨_, by rw [if_pos ho], rfl⟩
  rename_i ho
  rw [if_neg ho]
  cases hs : stripStem whiteoutStem (splitLastComponent p).2 with
  | some removed =>
    rw [hs] at h
    simp only at h ⊢
    split at h
    · cases h
    rename_i hr
    have hmem : ∀ x ∈ removed, x ∈ (splitLastComponent p).2 := by
      unfold stripStem at hs
      split at hs
      · cases hs; exact fun x hx => List.mem_of_mem_drop hx
      · cases hs
    obtain ⟨hj, _⟩ := @components_joinPath (splitLastComponent p).1 removed
      (fun hx => hslash (hmem _ hx)) (by simpa using hr)
    cases h
    exact Or.inr (Or.inl ⟨_, by rw [hj], rfl⟩)
  | none =>
    rw [hs] at h
    simp only at h ⊢
    obtain ⟨e, he, h⟩ := Res.bind_ok h
    obtain ⟨hl, ho⟩ := mergedEntry_ok he
    cases h
    refine Or.inr (Or.inr ⟨trivial, e, hl, ho, ?_⟩)
    have hdir : classifyEntry m.entryType = .directory ↔ m.entryType = .directory := by
      cases m.entryType <;> simp [classifyEntry]
    simp only [hdir]

/-- What reading a member does: nothing for the archive root, else the overlay rule of its path. -/
theorem mergeMember_ok (h : mergeMember limits k label b st m = .ok st') :
    st'.nextOrdinal = st.nextOrdinal + 1 ∧
      ((rawComponents m.path = [] ∧ st'.entries = st.entries) ∨
        ∃ p lf, p ≠ [] ∧ components p = rawComponents m.path ∧ mergePath st k label m p = .ok (st'.entries, lf)) := by
  unfold mergeMember at h
  obtain ⟨_, _, h⟩ := Res.bind_ok h
  obtain ⟨r, hr, h⟩ := Res.bind_ok h
  rcases normalizeEntryPath_ok hr with ⟨rfl, hc⟩ | ⟨p, rfl, hp, hc⟩
  · cases h
    exact ⟨rfl, Or.inl ⟨hc, rfl⟩⟩
  · obtain ⟨⟨es, lf⟩, hes, h⟩ := Res.bind_ok h
    cases h
    exact ⟨rfl, Or.inr ⟨p, lf, hp, hc, hes⟩⟩

/-- The survivors after a deletion. -/
theorem survivorAt_drop {entries : Entries} {path q : Bytes} {incl : Bool} (hroot : entries[([] : Bytes)]? = none)
    {D : Prop} [Decidable D]
    (hD : D ↔ (incl = true ∧ q = path) ∨ StrictlyBelow (components path) (components q)) :
    survivorAt (dropLowerSubtree entries path k incl) q =
      if D ∧ ∃ s, survivorAt entries q = some s ∧ s.1 < k then none else survivorAt entries q := by
  have hlow : (∃ s, survivorAt entries q = some s ∧ s.1 < k) ↔ ∃ e, entries[q]? = some e ∧ e.layer < k := by
    unfold survivorAt
    cases entries[q]? <;> simp
  have hdrop := @getElem?_dropLowerSubtree entries path q k incl hroot
  rcases hdrop with ⟨h, hl, hd⟩ | ⟨h, hn⟩
  · rw [if_pos ⟨hD.mpr hd, hlow.mpr hl⟩, survivorAt, h]; rfl
  · rw [if_neg fun hc => hn ⟨hlow.mp hc.2, hD.mp hc.1⟩, survivorAt, h]; rfl

/-- **One member**: it adds at its own path and deletes lower-layer entries, never an entry of its own layer. -/
theorem mergeMember_step (hroot : st.entries[([] : Bytes)]? = none)
    (h : mergeMember limits k label b st m = .ok st') (q : Bytes) :
    survivorAt st'.entries q = if m.Adds (components q) then some (k, st.nextOrdinal)
      else if m.Deletes (components q) ∧ ∃ s, survivorAt st.entries q = some s ∧ s.1 < k then none
      else survivorAt st.entries q := by
  obtain ⟨_, ⟨hc, he⟩ | ⟨p, lf, hp, hc, hm⟩⟩ := mergeMember_ok h
  · rw [he]
    simp [Member.Adds, Member.Deletes, hc, markOf]
  · have hkey : components q = rawComponents m.path ↔ q = p := by
      rw [← hc]; exact ⟨components_inj, congrArg components⟩
    rcases mergePath_ok hp hc hm with ⟨dir, hmark, he⟩ | ⟨target, hmark, he⟩ | ⟨hmark, e, hl, ho, he⟩
    · rw [he, if_neg (by simp [Member.Adds, hmark])]
      exact survivorAt_drop hroot (by simp [Member.Deletes, hmark])
    · rw [he, if_neg (by simp [Member.Adds, hmark])]
      refine survivorAt_drop hroot ?_
      simp only [Member.Deletes, hmark, true_and]
      exact or_congr_left ⟨components_inj, congrArg components⟩
    · have hins : survivorAt st'.entries q = if q = p then some (k, st.nextOrdinal) else survivorAt
          (if m.entryType = .directory then st.entries else dropLowerSubtree st.entries p k false) q := by
        rw [he, survivorAt, Std.TreeMap.getElem?_insert]
        have hqp : compare p q = .eq ↔ q = p := Std.LawfulEqCmp.compare_eq_iff_eq.trans eq_comm
        by_cases hq : q = p
        · rw [if_pos (hqp.mpr hq), if_pos hq, Option.map_some, hl, ho]
        · rw [if_neg fun h' => hq (hqp.mp h'), if_neg hq]; rfl
      rw [hins]
      by_cases hq : q = p
      · rw [if_pos hq, if_pos ⟨hmark, (hkey.mpr hq).symm⟩]
      · rw [if_neg hq, if_neg fun ha : m.Adds (components q) => hq (hkey.mp ha.2.symm)]
        by_cases hdir : m.entryType = .directory
        · rw [if_pos hdir, if_neg]
          simp [Member.Deletes, hmark, hdir]
        · rw [if_neg hdir]
          refine survivorAt_drop hroot ?_
          simp [Member.Deletes, hmark, hdir, hc]

/-- No member gives the archive root an entry. -/
theorem mergeMember_root (hroot : st.entries[([] : Bytes)]? = none)
    (h : mergeMember limits k label b st m = .ok st') : st'.entries[([] : Bytes)]? = none := by
  have hs := mergeMember_step hroot h []
  have hn : ¬m.Adds (components []) := by
    rintro ⟨h1, h2⟩
    rw [h2] at h1
    cases h1
  rw [if_neg hn, survivorAt, survivorAt, hroot] at hs
  simpa using hs

end Step

/-! ## One layer -/

theorem lastAdds_append (m : Member) (q : List Bytes) : ∀ (i : Nat) (ms : List Member),
    lastAdds i (ms ++ [m]) q = if m.Adds q then some (i + ms.length) else lastAdds i ms q
  | i, [] => by simp [lastAdds]
  | i, m' :: ms => by
    rw [List.cons_append, lastAdds, lastAdds_append m q (i + 1) ms, lastAdds]
    by_cases ha : m.Adds q
    · rw [if_pos ha, if_pos ha, List.length_cons, Option.some_or]
      congr 1
      omega
    · rw [if_neg ha, if_neg ha]

/-- Every survivor comes from a layer below `k`. -/
def LowerThan (k : Nat) (lower : Survivors) : Prop := ∀ q s, lower q = some s → s.1 < k

/-- The reference takes a further member as the code does: add, or delete from the lower layers only. -/
theorem overlayLayer_append {k : Nat} {lower : Survivors} (hlow : LowerThan k lower) (ms : List Member) (m : Member)
    (q : List Bytes) : overlayLayer k (ms ++ [m]) lower q = if m.Adds q then some (k, ms.length)
      else if m.Deletes q ∧ ∃ s, overlayLayer k ms lower q = some s ∧ s.1 < k then none
      else overlayLayer k ms lower q := by
  simp only [overlayLayer, lastAdds_append]
  by_cases ha : m.Adds q
  · simp [ha]
  · rw [if_neg ha, if_neg ha]
    rcases Option.eq_none_or_eq_some (lastAdds 0 ms q) with hl | ⟨i, hl⟩
    · have hex : (∃ m' ∈ ms ++ [m], m'.Deletes q) ↔ (∃ m' ∈ ms, m'.Deletes q) ∨ m.Deletes q := by
        constructor
        · rintro ⟨m', hm', hd'⟩
          rcases List.mem_append.mp hm' with hm' | hm'
          · exact Or.inl ⟨m', hm', hd'⟩
          · exact Or.inr (List.mem_singleton.mp hm' ▸ hd')
        · rintro (⟨m', hm', hd'⟩ | hd')
          · exact ⟨m', List.mem_append_left _ hm', hd'⟩
          · exact ⟨m, by simp, hd'⟩
      simp only [hl, hex, Option.map_none, Option.none_or]
      by_cases hms : ∃ m' ∈ ms, m'.Deletes q
      · simp only [hms, true_or, if_true, ite_self]
      · simp only [hms, false_or, if_false]
        by_cases hd : m.Deletes q
        · rw [if_pos hd]
          cases hq : lower q with
          | none => rw [ite_self]
          | some s => rw [if_pos ⟨hd, s, rfl, hlow q s hq⟩]
        · rw [if_neg hd, if_neg fun h => hd h.1]
    · simp [hl]

/-- What the path map holds after the members `ms` of layer `k` were read over the map `lower`. -/
structure Reached (k : Nat) (lower : Survivors) (ms : List Member) (st : LayerPass) : Prop where
  root : st.entries[([] : Bytes)]? = none
  ordinal : st.nextOrdinal = ms.length
  survivors : ∀ q, survivorAt st.entries q = overlayLayer k ms lower (components q)

/-- Reading one more member keeps the correspondence. -/
theorem Reached.step {k b : Nat} {lower : Survivors} (hlow : LowerThan k lower) {ms : List Member} {m : Member}
    {st st' : LayerPass} {limits : MergeLimits} {label : String} (hr : Reached k lower ms st)
    (h : mergeMember limits k label b st m = .ok st') : Reached k lower (ms ++ [m]) st' where
  root := mergeMember_root hr.root h
  ordinal := by rw [(mergeMember_ok h).1, hr.ordinal, List.length_append]; rfl
  survivors := by
    intro q
    rw [mergeMember_step hr.root h, overlayLayer_append hlow, hr.survivors, hr.ordinal]

/-- Reading the rest of a layer keeps the correspondence. -/
theorem Reached.run {k b : Nat} {lower : Survivors} (hlow : LowerThan k lower) {limits : MergeLimits}
    {label : String} : ∀ {rest ms : List Member} {st st' : LayerPass}, Reached k lower ms st →
    rest.foldlM (mergeMember limits k label b) st = .ok st' → Reached k lower (ms ++ rest) st'
  | [], ms, st, st', hr, h => by
    cases h
    rw [List.append_nil]
    exact hr
  | m :: rest, ms, st, st', hr, h => by
    rw [List.foldlM_cons] at h
    obtain ⟨st₁, h₁, h⟩ := Res.bind_ok h
    have := Reached.run hlow (hr.step hlow h₁) h
    rwa [List.append_assoc, List.singleton_append] at this

theorem overlayLayer_lowerThan {k : Nat} {lower : Survivors} (hlow : LowerThan k lower) (ms : List Member) :
    LowerThan (k + 1) (overlayLayer k ms lower) := by
  intro q s h
  simp only [overlayLayer] at h
  cases hl : lastAdds 0 ms q with
  | some i =>
    rw [hl] at h
    cases h
    exact Nat.lt_succ_self k
  | none =>
    rw [hl, Option.map_none, Option.none_or] at h
    split at h
    · cases h
    · exact Nat.lt_succ_of_lt (hlow q s h)

/-! ## All layers -/

/-- The path map corresponds to a map of the reference. -/
structure Holds (k : Nat) (entries : Entries) (S : Survivors) : Prop where
  root : entries[([] : Bytes)]? = none
  lower : LowerThan k S
  survivors : ∀ q, survivorAt entries q = S (components q)

/-- One layer of the code is one layer of the reference. -/
theorem Holds.layer {k : Nat} {limits : MergeLimits} {st st' : PlanPass} {S : Survivors} {source : DecodedLayer}
    (hr : Holds k st.entries S) (h : mergeLayer limits st k source = .ok st') :
    Holds (k + 1) st'.entries (overlayLayer k source.members S) := by
  obtain ⟨pass, hpass, h⟩ := Res.bind_ok h
  have h0 : Reached k S [] ⟨st.entries, st.membersRead, 0, 0, []⟩ :=
    ⟨hr.root, rfl, fun q => by rw [hr.survivors]; simp [overlayLayer, lastAdds]⟩
  have hrun := h0.run hr.lower hpass
  cases hf : source.failure with
  | some e => rw [hf] at h; cases h
  | none =>
    rw [hf] at h
    cases h
    exact ⟨hrun.root, overlayLayer_lowerThan hr.lower _, hrun.survivors⟩

/-- All further layers of the code are those of the reference. -/
theorem Holds.layers {limits : MergeLimits} : ∀ {sources : List DecodedLayer} {k : Nat} {st st' : PlanPass}
    {S : Survivors}, Holds k st.entries S → mergeLayersFrom limits st k sources = .ok st' →
    Holds (k + sources.length) st'.entries (overlayFrom k sources S)
  | [], k, st, st', S, hr, h => by cases h; exact hr
  | source :: sources, k, st, st', S, hr, h => by
    obtain ⟨st₁, h₁, h⟩ := Res.bind_ok h
    have := Holds.layers (hr.layer h₁) h
    rwa [Nat.add_right_comm, Nat.add_assoc] at this

/-- Both maps start empty. -/
theorem holds_empty : Holds 0 (⟨∅, 0, 0⟩ : PlanPass).entries fun _ => none :=
  ⟨by simp, fun _ _ h => (by cases h), fun q => by simp [survivorAt]⟩

/-- A plan's map is the reference overlay. -/
theorem buildPlan_entries {limits : MergeLimits} {layers : List DecodedLayer} {plan : MergePlan}
    (h : buildPlan limits layers = .ok plan) (q : Bytes) : plan.survivor q = overlay layers (components q) := by
  obtain ⟨st, hst, h⟩ := Res.bind_ok h
  obtain ⟨ov, _, h⟩ := Res.bind_ok h
  cases h
  exact (holds_empty.layers hst).survivors q

/-! ## The members themselves, and the order inside a layer -/

/-- The last member that adds an entry at `q`. -/
@[grind =] def lastMember : List Member → List Bytes → Option Member
  | [], _ => none
  | m :: ms, q => (lastMember ms q).or (if m.Adds q then some m else none)

/-- A map from paths to the layer and the member that survives there. -/
abbrev MemberMap := List Bytes → Option (Nat × Member)

/-- One layer of the reference, keeping members instead of ordinals. -/
def memberLayer (k : Nat) (ms : List Member) (lower : MemberMap) : MemberMap := fun q =>
  ((lastMember ms q).map (k, ·)).or (if ∃ m ∈ ms, m.Deletes q then none else lower q)

/-- The reference with members, from layer `k` on. -/
@[grind =] def memberFrom : Nat → List DecodedLayer → MemberMap → MemberMap
  | _, [], lower => lower
  | k, source :: sources, lower => memberFrom (k + 1) sources (memberLayer k source.members lower)

/-- The member behind a survivor. -/
def memberAt (layers : List DecodedLayer) (s : Nat × Nat) : Option (Nat × Member) :=
  ((layers[s.1]?).bind (·.members[s.2]?)).map (s.1, ·)

/-- The ordinal of an addition lies inside the layer. -/
theorem lastAdds_lt (q : List Bytes) : ∀ (i : Nat) (ms : List Member) (j : Nat), lastAdds i ms q = some j →
    j < i + ms.length
  | _, [], _, h => by cases h
  | i, m :: ms, j, h => by
    rw [lastAdds] at h
    rw [List.length_cons]
    cases h' : lastAdds (i + 1) ms q with
    | some j' =>
      rw [h', Option.some_or, Option.some.injEq] at h
      have := lastAdds_lt q (i + 1) ms j' h'
      omega
    | none =>
      rw [h', Option.none_or] at h
      split at h
      · cases h; omega
      · cases h

/-- The ordinal of the last addition is that of the last adding member. -/
theorem lastAdds_member (q : List Bytes) : ∀ (i : Nat) (ms : List Member),
    (∀ j, lastAdds i ms q = some j → i ≤ j ∧ ms[j - i]? = lastMember ms q) ∧
      (lastAdds i ms q = none → lastMember ms q = none)
  | i, [] => by simp [lastAdds, lastMember]
  | i, m :: ms => by
    obtain ⟨ih1, ih2⟩ := lastAdds_member q (i + 1) ms
    simp only [lastAdds, lastMember]
    cases h : lastAdds (i + 1) ms q with
    | some j =>
      obtain ⟨hle, hget⟩ := ih1 j h
      refine ⟨fun j' hj' => ?_, fun hn => by simp at hn⟩
      rw [Option.some_or, Option.some.injEq] at hj'
      subst hj'
      have hsub : j - i = j - (i + 1) + 1 := by omega
      refine ⟨by omega, ?_⟩
      rw [hsub, List.getElem?_cons_succ, hget]
      cases hl : lastMember ms q with
      | some m' => rfl
      | none =>
        rw [hl, List.getElem?_eq_none_iff] at hget
        exact absurd (lastAdds_lt q (i + 1) ms j h) (by omega)
    | none =>
      rw [ih2 h, Option.none_or, Option.none_or]
      by_cases ha : m.Adds q
      · simp [ha]
      · simp [ha]
/-- A later member at the same path is the one that counts. -/
theorem lastAdds_ge (q : List Bytes) : ∀ {ms : List Member} (n : Nat) {i : Nat} {m : Member}, ms[i]? = some m →
    m.Adds q → ∃ j, lastAdds n ms q = some j ∧ n + i ≤ j
  | [], _, _, _, h, _ => by simp at h
  | m' :: ms, n, 0, m, h, ha => by
    rw [List.getElem?_cons_zero, Option.some.injEq] at h
    subst h
    rw [lastAdds]
    cases hl : lastAdds (n + 1) ms q with
    | some j => exact ⟨j, rfl, by have := ((lastAdds_member q (n + 1) ms).1 j hl).1; omega⟩
    | none => exact ⟨n, by rw [if_pos ha]; rfl, by omega⟩
  | m' :: ms, n, i + 1, m, h, ha => by
    rw [List.getElem?_cons_succ] at h
    obtain ⟨j, hj, hle⟩ := lastAdds_ge q (n + 1) h ha
    exact ⟨j, by rw [lastAdds, hj]; rfl, by omega⟩

/-- Reading the members off one layer of the reference. -/
theorem overlayLayer_memberAt {layers : List DecodedLayer} {k : Nat} {source : DecodedLayer}
    (hk : layers[k]? = some source) (S : Survivors) (q : List Bytes) :
    (overlayLayer k source.members S q).bind (memberAt layers) =
      memberLayer k source.members (fun p => (S p).bind (memberAt layers)) q := by
  obtain ⟨h1, h2⟩ := lastAdds_member q 0 source.members
  simp only [overlayLayer, memberLayer]
  cases hl : lastAdds 0 source.members q with
  | some j =>
    obtain ⟨_, hget⟩ := h1 j hl
    have hlt := lastAdds_lt q 0 source.members j hl
    rw [Nat.sub_zero, List.getElem?_eq_getElem (by omega)] at hget
    rw [← hget]
    simp [memberAt, hk, List.getElem?_eq_getElem (show j < source.members.length by omega)]
  | none =>
    rw [h2 hl]
    simp only [Option.map_none, Option.none_or]
    split <;> rfl

/-- Reading the members off all further layers. -/
theorem overlayFrom_memberAt {layers : List DecodedLayer} : ∀ {sources : List DecodedLayer} {k : Nat} (S : Survivors)
    (q : List Bytes), layers.drop k = sources → (overlayFrom k sources S q).bind (memberAt layers) =
      memberFrom k sources (fun p => (S p).bind (memberAt layers)) q
  | [], k, S, q, _ => rfl
  | source :: sources, k, S, q, h => by
    have hk : layers[k]? = some source := by
      have := congrArg List.head? h
      rwa [List.head?_drop] at this
    have hd : layers.drop (k + 1) = sources := by
      have := congrArg List.tail h
      rwa [List.tail_drop] at this
    rw [overlayFrom, overlayFrom_memberAt _ q hd, memberFrom]
    congr 1
    funext p
    exact overlayLayer_memberAt hk S p

/-- The members a plan keeps are those of the reference. -/
theorem buildPlan_member {limits : MergeLimits} {layers : List DecodedLayer} {plan : MergePlan}
    (h : buildPlan limits layers = .ok plan) (q : Bytes) :
    plan.member layers q = memberFrom 0 layers (fun _ => none) (components q) := by
  show (plan.survivor q).bind (memberAt layers) = _
  rw [buildPlan_entries h q, overlay, overlayFrom_memberAt _ _ (List.drop_zero)]
  rfl

/-- The normalized paths of a layer's members are pairwise distinct. -/
def DistinctPaths (ms : List Member) : Prop := ((ms.map fun m => rawComponents m.path).filter (· ≠ [])).Nodup

theorem lastMember_eq_getLast? (q : List Bytes) : ∀ ms : List Member,
    lastMember ms q = (ms.filter (fun m => m.Adds q)).getLast?
  | [] => rfl
  | m :: ms => by
    rw [lastMember, lastMember_eq_getLast? q ms]
    by_cases ha : m.Adds q
    · rw [if_pos ha, List.filter_cons_of_pos (by simpa using ha), List.getLast?_cons]
      cases (ms.filter fun m => m.Adds q).getLast? <;> rfl
    · rw [if_neg ha, List.filter_cons_of_neg (by simpa using ha), Option.or_none]

/-- With distinct paths at most one member adds an entry at a path. -/
theorem length_filter_adds {ms : List Member} (h : DistinctPaths ms) (q : List Bytes) :
    (ms.filter fun m => m.Adds q).length ≤ 1 := by
  have hsub : ((ms.filter fun m => m.Adds q).map fun m => rawComponents m.path).Sublist
      ((ms.map fun m => rawComponents m.path).filter (· ≠ [])) := by
    rw [List.filter_map]
    refine (List.monotone_filter_right ms fun m hm => ?_).map _
    have hm : m.Adds q := by simpa using hm
    have hne : rawComponents m.path ≠ [] := fun e => by
      have := hm.1
      rw [e] at this
      cases this
    simpa using hne
  have hrep : (ms.filter fun m => m.Adds q).map (fun m => rawComponents m.path) =
      List.replicate (ms.filter fun m => m.Adds q).length q := by
    rw [List.eq_replicate_iff]
    refine ⟨by simp, fun p hp => ?_⟩
    obtain ⟨m, hm, rfl⟩ := List.mem_map.mp hp
    have hm : m.Adds q := by simpa using (List.mem_filter.mp hm).2
    exact hm.2
  have := h.sublist hsub
  rw [hrep] at this
  exact List.nodup_replicate.mp this

/-- The last addition does not depend on the order of members with distinct paths. -/
theorem lastMember_perm {ms ms' : List Member} (hp : ms.Perm ms') (hd : DistinctPaths ms) (q : List Bytes) :
    lastMember ms q = lastMember ms' q := by
  rw [lastMember_eq_getLast?, lastMember_eq_getLast?]
  have hperm := hp.filter fun m => m.Adds q
  have hlen := length_filter_adds hd q
  cases hf : ms.filter fun m => m.Adds q with
  | nil => rw [hf, List.nil_perm] at hperm; rw [hperm]
  | cons a l =>
    rw [hf, List.length_cons] at hlen
    have hl : l = [] := List.length_eq_zero_iff.mp (by omega)
    rw [hf, hl, List.singleton_perm] at hperm
    rw [hl, hperm]

/-- A layer of the reference does not depend on the order of members with distinct paths. -/
theorem memberLayer_perm {ms ms' : List Member} (hp : ms.Perm ms') (hd : DistinctPaths ms) (k : Nat) :
    memberLayer k ms = memberLayer k ms' := by
  funext lower q
  have hdel : (∃ m ∈ ms, m.Deletes q) ↔ ∃ m ∈ ms', m.Deletes q :=
    ⟨fun ⟨m, hm, h⟩ => ⟨m, hp.mem_iff.mp hm, h⟩, fun ⟨m, hm, h⟩ => ⟨m, hp.mem_iff.mpr hm, h⟩⟩
  simp only [memberLayer, lastMember_perm hp hd q, hdel]

theorem memberFrom_perm {source source' : DecodedLayer} (hp : source.members.Perm source'.members)
    (hd : DistinctPaths source.members) (higher : List DecodedLayer) : ∀ (lowers : List DecodedLayer) (k : Nat)
    (S : MemberMap), memberFrom k (lowers ++ source :: higher) S = memberFrom k (lowers ++ source' :: higher) S
  | [], k, S => by
    simp only [List.nil_append, memberFrom, memberLayer_perm hp hd]
  | l :: lowers, k, S => by
    simp only [List.cons_append, memberFrom]
    exact memberFrom_perm hp hd higher lowers (k + 1) _

/-- An entry a layer adds is in the map when that layer has been read. -/
theorem mergeLayer_keeps_own {limits : MergeLimits} {lowers : List DecodedLayer} {source : DecodedLayer}
    {st st' : PlanPass} (hst : mergeLayersFrom limits ⟨∅, 0, 0⟩ 0 lowers = .ok st)
    (h : mergeLayer limits st lowers.length source = .ok st') {i : Nat} {m : Member}
    (hm : source.members[i]? = some m) {q : Bytes} (ha : m.Adds (components q)) :
    ∃ j, i ≤ j ∧ survivorAt st'.entries q = some (lowers.length, j) := by
  have hl := holds_empty.layers hst
  rw [Nat.zero_add] at hl
  rw [(hl.layer h).survivors, overlayLayer]
  obtain ⟨j, hj, hij⟩ := lastAdds_ge (components q) 0 hm ha
  exact ⟨j, by omega, by rw [hj]; rfl⟩

/-- **The layer merge is the overlay.** Whenever `build_plan` succeeds its map is the reference overlay; a layer's own
marks never remove an entry of that layer; and the order of members with distinct paths does not matter. -/
theorem buildPlan_overlay :
    (∀ limits layers plan, buildPlan limits layers = .ok plan →
      ∀ q, plan.survivor q = overlay layers (components q)) ∧
    (∀ limits lowers source st st', mergeLayersFrom limits ⟨∅, 0, 0⟩ 0 lowers = .ok st →
      mergeLayer limits st lowers.length source = .ok st' →
      ∀ (i : Nat) (m : Member) (q : Bytes), source.members[i]? = some m → m.Adds (components q) →
        ∃ j, i ≤ j ∧ survivorAt st'.entries q = some (lowers.length, j)) ∧
    (∀ limits lowers source source' highers plan plan', source.members.Perm source'.members →
      DistinctPaths source.members →
      buildPlan limits (lowers ++ source :: highers) = .ok plan →
      buildPlan limits (lowers ++ source' :: highers) = .ok plan' →
      ∀ q, plan.member (lowers ++ source :: highers) q = plan'.member (lowers ++ source' :: highers) q) := by
  refine ⟨fun limits layers plan h q => buildPlan_entries h q,
    fun limits lowers source st st' hst h i m q hm ha => mergeLayer_keeps_own hst h hm ha, ?_⟩
  intro limits lowers source source' highers plan plan' hp hd h h' q
  rw [buildPlan_member h, buildPlan_member h', memberFrom_perm hp hd]

/-- A file deleted and re-created by one layer survives from that layer whichever of the two members comes first, and
the sibling `a-b`, which sorts between `a` and `a/x`, is left alone. -/
theorem buildPlan_overlay_recreated :
    let lower : DecodedLayer := ⟨"l0", [⟨bytes "a", none, .directory, 0, 512⟩, ⟨bytes "a-b", none, .regular, 3, 512⟩,
      ⟨bytes "a/x", none, .regular, 5, 512⟩], 1024, none⟩
    let upper : DecodedLayer := ⟨"l1", [⟨bytes "a/.wh.x", none, .regular, 0, 512⟩,
      ⟨bytes "./a/x", none, .regular, 7, 512⟩, ⟨bytes "a/.wh..wh..opq", none, .regular, 0, 512⟩], 1024, none⟩
    let upper' : DecodedLayer := ⟨"l1", [⟨bytes "./a/x", none, .regular, 7, 512⟩,
      ⟨bytes "a/.wh..wh..opq", none, .regular, 0, 512⟩, ⟨bytes "a/.wh.x", none, .regular, 0, 512⟩], 1024, none⟩
    ∃ plan plan', buildPlan ⟨100000, 100⟩ [lower, upper] = .ok plan ∧
      buildPlan ⟨100000, 100⟩ [lower, upper'] = .ok plan' ∧
      plan.survivor (bytes "a-b") = overlay [lower, upper] (components (bytes "a-b")) ∧
      plan.survivor (bytes "a-b") = some (0, 1) ∧ plan.survivor (bytes "a/x") = some (1, 1) ∧
      plan'.survivor (bytes "a/x") = some (1, 0) ∧
      plan.member [lower, upper] (bytes "a/x") = plan'.member [lower, upper'] (bytes "a/x") := by
  intro lower upper upper'
  obtain ⟨plan, hp⟩ := Res.exists_ok (x := buildPlan ⟨100000, 100⟩ [lower, upper]) (by decide)
  obtain ⟨plan', hp'⟩ := Res.exists_ok (x := buildPlan ⟨100000, 100⟩ [lower, upper']) (by decide)
  have h := buildPlan_overlay.1 _ _ _ hp
  have h' := buildPlan_overlay.1 _ _ _ hp'
  refine ⟨plan, plan', hp, hp', h _, ?_, ?_, ?_, ?_⟩
  · rw [h]; decide
  · rw [h]; decide
  · rw [h']; decide
  · exact buildPlan_overlay.2.2 _ [lower] upper upper' [] _ _ (by decide)
      (by unfold DistinctPaths; decide) hp hp' _

end Firestone.Oci
