import Firestone.Lib.Runs
import Firestone.Oci.Overlay

/-!
# What a plan holds

* `EntryOf` — an entry of the path map is made from the member that survives at its path and from the regular files
  before it in its layer; `buildPlan_entryOf` says so of every entry of a plan.
* `repairOf` — the hard links whose target another layer took away and whose content is still in their own layer;
  `planHardlinks_ok` says how each of them is emitted.
-/

namespace Firestone.Oci

open Firestone.Lib

/-! ## Entries -/

def Member.isRegular (m : Member) : Bool := m.entryType = .regular || m.entryType = .continuous

/-- The ordinal and the size of the last regular file at `q` among the members, counting from `i`. -/
@[grind =] def lastFile : Nat → List Member → List Bytes → Option (Nat × Nat)
  | _, [], _ => none
  | i, m :: ms, q => (lastFile (i + 1) ms q).or (if m.Adds q ∧ m.isRegular = true then some (i, m.dataSize) else none)

theorem lastFile_append (m : Member) (q : List Bytes) : ∀ (i : Nat) (ms : List Member),
    lastFile i (ms ++ [m]) q = if m.Adds q ∧ m.isRegular = true then some (i + ms.length, m.dataSize) else lastFile i ms q := by
  intro i ms
  induction ms generalizing i with
  | nil => simp [lastFile]
  | cons m' ms ih =>
    rw [List.cons_append, lastFile, ih, lastFile]
    by_cases ha : m.Adds q ∧ m.isRegular = true
    · rw [if_pos ha, if_pos ha, List.length_cons, Option.some_or]
      congr 2
      omega
    · rw [if_neg ha, if_neg ha]

theorem lastFile_some {q : List Bytes} {o size : Nat} : ∀ {i : Nat} {ms : List Member},
    lastFile i ms q = some (o, size) →
    i ≤ o ∧ ∃ m, ms[o - i]? = some m ∧ m.Adds q ∧ m.isRegular = true ∧ m.dataSize = size := by
  intro i ms
  induction ms generalizing i with
  | nil => intro h; cases h
  | cons m ms ih =>
    intro h
    rw [lastFile] at h
    cases hl : lastFile (i + 1) ms q with
    | some r =>
      rw [hl] at h
      cases h
      obtain ⟨hle, m', hget, hm'⟩ := ih hl
      refine ⟨by omega, m', ?_, hm'⟩
      have hsub : o - i = o - (i + 1) + 1 := by omega
      rw [hsub, List.getElem?_cons_succ, hget]
    | none =>
      rw [hl, Option.none_or] at h
      split at h
      · rename_i ha
        cases h
        exact ⟨Nat.le_refl _, m, by simp, ha.1, ha.2, rfl⟩
      · cases h

/-- The entry of layer `k` at `path` is made from the member at its ordinal. -/
structure EntryOf (label : String) (members : List Member) (k : Nat) (path : Bytes) (e : MergedEntry) (m : Member) :
    Prop where
  layer : e.layer = k
  member : members[e.ordinal]? = some m
  adds : m.Adds (components path)
  kind : e.kind = classifyEntry m.entryType
  link : hardLinkTarget label m = .ok e.linkTarget
  localFile : e.localTarget = e.linkTarget.bind fun t => lastFile 0 (members.take e.ordinal) (components t)
  symlink : e.symlinkTarget = if classifyEntry m.entryType = .symlink then m.link else none

section Step

variable {st st' : LayerPass} {k b : Nat} {label : String} {m : Member} {limits : MergeLimits}

theorem classifyEntry_directory {t : EntryType} : classifyEntry t = .directory ↔ t = .directory := by
  cases t <;> simp [classifyEntry]

theorem classifyEntry_regular {m : Member} (h : m.isRegular = true) : classifyEntry m.entryType = .regular := by
  unfold Member.isRegular at h
  simp only [Bool.or_eq_true, decide_eq_true_eq] at h
  rcases h with h | h <;> rw [h] <;> rfl

/-- What an ordinary member makes of the path map and of the local files. -/
theorem mergePath_ordinary {p : Bytes} {es : Entries} {lf : List (Bytes × (Nat × Nat))} (hp : p ≠ [])
    (hc : components p = rawComponents m.path) (h : mergePath st k label m p = .ok (es, lf)) :
    (markOf (rawComponents m.path) ≠ .ordinary ∧ lf = st.localFiles ∧
      ∃ path incl, es = dropLowerSubtree st.entries path k incl) ∨
    (markOf (rawComponents m.path) = .ordinary ∧
      lf = (if m.isRegular = true then (p, (st.nextOrdinal, m.dataSize)) :: st.localFiles else st.localFiles) ∧
      ∃ e, mergedEntry k st.nextOrdinal label m lf = .ok e ∧
      es = (if m.entryType = .directory then st.entries else dropLowerSubtree st.entries p k false).insert p e) := by
  have hne : [] ∉ components p := by rw [hc]; exact nil_not_mem_rawComponents _
  obtain ⟨hsplit, _⟩ := splitLastComponent_components hp hne
  unfold mergePath at h
  simp only at h
  rw [← hc, hsplit, markOf_append]
  split at h
  · rename_i ho
    cases h
    exact Or.inl ⟨by rw [if_pos ho]; simp, rfl, _, _, rfl⟩
  rename_i ho
  rw [if_neg ho]
  cases hs : stripStem whiteoutStem (splitLastComponent p).2 with
  | some removed =>
    rw [hs] at h
    simp only at h ⊢
    split at h
    · cases h
    cases h
    exact Or.inl ⟨by simp, rfl, _, _, rfl⟩
  | none =>
    rw [hs] at h
    simp only at h ⊢
    obtain ⟨e, he, h⟩ := Res.bind_ok h
    cases h
    have hreg : m.isRegular = true ↔ m.entryType = .regular ∨ m.entryType = .continuous := by
      simp [Member.isRegular]
    refine Or.inr ⟨trivial, ?_, e, he, by simp only [classifyEntry_directory]⟩
    simp only [hreg]

end Step

/-- The target of a link is a path of the archive. -/
theorem normalizeLinkTarget_ok {raw t : Bytes} {label : String} (h : normalizeLinkTarget raw label = .ok t) :
    t ≠ [] ∧ components t = rawComponents ((stripStem [slash] raw).getD raw) := by
  obtain ⟨r, hr, h⟩ := Res.bind_ok h
  rcases normalizeRelative_ok hr with ⟨rfl, _⟩ | ⟨p, rfl, hp, hc⟩
  · cases h
  · cases h
    exact ⟨hp, hc⟩

theorem hardLinkTarget_ok {label : String} {m : Member} {t : Option Bytes} (h : hardLinkTarget label m = .ok t) :
    (classifyEntry m.entryType ≠ .hardLink ∧ t = none) ∨
      ∃ p, classifyEntry m.entryType = .hardLink ∧ t = some p ∧ normalizeLinkTarget (m.link.getD []) label = .ok p := by
  unfold hardLinkTarget at h
  split at h
  · rename_i hk
    cases hn : normalizeLinkTarget (m.link.getD []) label with
    | error e => rw [hn] at h; cases h
    | ok p =>
      rw [hn] at h
      cases h
      exact Or.inr ⟨p, hk, rfl, rfl⟩
  · rename_i hk
    cases h
    exact Or.inl ⟨hk, rfl⟩

/-- Members read later do not change where an entry came from. -/
theorem EntryOf.append {label : String} {ms : List Member} {k : Nat} {p : Bytes} {e : MergedEntry} {m : Member}
    (h : EntryOf label ms k p e m) (more : List Member) : EntryOf label (ms ++ more) k p e m := by
  have hlt := (List.getElem?_eq_some_iff.mp h.member).1
  refine ⟨h.layer, ?_, h.adds, h.kind, h.link, ?_, h.symlink⟩
  · rw [List.getElem?_append_left hlt, h.member]
  · rw [List.take_append_of_le_length (by omega), h.localFile]

theorem dropLowerSubtree_subset {entries : Entries} {path q : Bytes} {k : Nat} {incl : Bool} {e : MergedEntry}
    (hroot : entries[([] : Bytes)]? = none) (h : (dropLowerSubtree entries path k incl)[q]? = some e) :
    entries[q]? = some e := by
  rcases @getElem?_dropLowerSubtree entries path q k incl hroot with ⟨hn, _⟩ | ⟨he, _⟩
  · rw [hn] at h; cases h
  · rw [← he]; exact h

/-- What the map and the local files hold after the members `ms` of layer `k` were read over the map `lower`. -/
structure Recorded (label : String) (k : Nat) (lower : Entries) (ms : List Member) (st : LayerPass) : Prop where
  ordinal : st.nextOrdinal = ms.length
  root : st.entries[([] : Bytes)]? = none
  files : ∀ t, t ≠ [] → st.localFiles.lookup t = lastFile 0 ms (components t)
  entries : ∀ p e, st.entries[p]? = some e → lower[p]? = some e ∨ ∃ m, EntryOf label ms k p e m

/-- The entry of the member that is read now. -/
theorem Recorded.entry {label : String} {k : Nat} {lower : Entries} {ms : List Member} {st : LayerPass} {m : Member}
    {p : Bytes} {e : MergedEntry} (hr : Recorded label k lower ms st) (hc : components p = rawComponents m.path)
    (hmark : markOf (rawComponents m.path) = .ordinary)
    (h : mergedEntry k st.nextOrdinal label m
      (if m.isRegular = true then (p, (st.nextOrdinal, m.dataSize)) :: st.localFiles else st.localFiles) = .ok e) :
    EntryOf label (ms ++ [m]) k p e m := by
  obtain ⟨t, ht, h⟩ := Res.bind_ok h
  cases h
  refine ⟨rfl, by simp [hr.ordinal], ⟨hmark, hc.symm⟩, rfl, ht, ?_, rfl⟩
  simp only [hr.ordinal, List.take_left]
  rcases hardLinkTarget_ok ht with ⟨_, rfl⟩ | ⟨t, hk, rfl, hn⟩
  · rfl
  · -- a link is no regular file, so it looks at the members before it
    have hreg : ¬m.isRegular = true := fun h => by rw [classifyEntry_regular h] at hk; cases hk
    rw [if_neg hreg]
    exact hr.files t (normalizeLinkTarget_ok hn).1

theorem Recorded.step {label : String} {k b : Nat} {lower : Entries} {limits : MergeLimits} {ms : List Member}
    {m : Member} {st st' : LayerPass} (hr : Recorded label k lower ms st)
    (h : mergeMember limits k label b st m = .ok st') : Recorded label k lower (ms ++ [m]) st' := by
  have hroot := mergeMember_root hr.root h
  have hkeep : ∀ p e, st.entries[p]? = some e → lower[p]? = some e ∨ ∃ m', EntryOf label (ms ++ [m]) k p e m' := by
    intro p e he
    rcases hr.entries p e he with hl | ⟨m', hm'⟩
    · exact Or.inl hl
    · exact Or.inr ⟨m', hm'.append [m]⟩
  have hord : st'.nextOrdinal = (ms ++ [m]).length := by rw [(mergeMember_ok h).1, hr.ordinal]; simp
  unfold mergeMember at h
  obtain ⟨_, _, h⟩ := Res.bind_ok h
  obtain ⟨r, hn, h⟩ := Res.bind_ok h
  rcases normalizeEntryPath_ok hn with ⟨rfl, hc⟩ | ⟨p, rfl, hp, hc⟩
  · cases h
    refine ⟨hord, hroot, fun t ht => ?_, hkeep⟩
    rw [lastFile_append, if_neg]
    · exact hr.files t ht
    · rintro ⟨⟨hmark, _⟩, _⟩
      rw [hc] at hmark
      cases hmark
  · obtain ⟨⟨es, lf⟩, hes, h⟩ := Res.bind_ok h
    cases h
    rcases mergePath_ordinary hp hc hes with ⟨hmark, rfl, path, incl, rfl⟩ | ⟨hmark, rfl, e, he, rfl⟩
    · refine ⟨hord, hroot, fun t ht => ?_, fun q e he => hkeep q e (dropLowerSubtree_subset hr.root he)⟩
      rw [lastFile_append, if_neg fun hc => hmark hc.1.1]
      exact hr.files t ht
    · refine ⟨hord, hroot, fun t ht => ?_, fun q e' he' => ?_⟩
      · rw [lastFile_append]
        by_cases hreg : m.isRegular = true
        · simp only [hreg, if_true, and_true, List.lookup_cons, hr.ordinal, Nat.zero_add]
          by_cases htp : t = p
          · subst htp
            rw [if_pos ⟨hmark, hc.symm⟩]
            simp
          · rw [if_neg fun ha : m.Adds (components t) => htp (components_inj (by rw [hc, ha.2]))]
            have : (t == p) = false := by simpa using htp
            rw [this]
            exact hr.files t ht
        · simp only [hreg, Bool.false_eq_true, and_false, if_false]
          exact hr.files t ht
      · rw [Std.TreeMap.getElem?_insert] at he'
        split at he'
        · rename_i hq
          obtain rfl : p = q := Std.LawfulEqCmp.compare_eq_iff_eq.mp hq
          cases he'
          exact Or.inr ⟨m, hr.entry hc hmark he⟩
        · refine hkeep q e' ?_
          split at he'
          · exact he'
          · exact dropLowerSubtree_subset hr.root he'

/-- Every entry of a layer's map was there before or comes from a member of the layer. -/
theorem mergeLayer_recorded {limits : MergeLimits} {st st' : PlanPass} {k : Nat} {source : DecodedLayer}
    (hroot : st.entries[([] : Bytes)]? = none) (h : mergeLayer limits st k source = .ok st') :
    source.failure = none ∧ st'.entries[([] : Bytes)]? = none ∧
      ∀ p e, st'.entries[p]? = some e →
        st.entries[p]? = some e ∨ ∃ m, EntryOf (cursorLabel source k) source.members k p e m := by
  obtain ⟨pass, hpass, h⟩ := Res.bind_ok h
  have h0 : Recorded (cursorLabel source k) k st.entries [] ⟨st.entries, st.membersRead, 0, 0, []⟩ :=
    ⟨rfl, hroot, fun t _ => rfl, fun p e he => Or.inl he⟩
  have hrun := foldlM_invariant (Recorded (cursorLabel source k) k st.entries)
    (fun _ _ _ _ hr hs => Recorded.step hr hs) h0 hpass
  cases hf : source.failure with
  | some e => rw [hf] at h; cases h
  | none =>
    rw [hf] at h
    cases h
    exact ⟨rfl, hrun.root, hrun.entries⟩

/-- The entry of a plan at a path comes from one member of its layer. -/
def FromMember (layers : List DecodedLayer) (p : Bytes) (e : MergedEntry) : Prop :=
  ∃ source m, layers[e.layer]? = some source ∧ EntryOf (cursorLabel source e.layer) source.members e.layer p e m

theorem mergeLayersFrom_recorded {limits : MergeLimits} {layers : List DecodedLayer} :
    ∀ {sources : List DecodedLayer} {k : Nat} {st st' : PlanPass}, layers.drop k = sources →
    st.entries[([] : Bytes)]? = none → (∀ p e, st.entries[p]? = some e → FromMember layers p e) →
    mergeLayersFrom limits st k sources = .ok st' →
    (∀ source ∈ sources, source.failure = none) ∧ st'.entries[([] : Bytes)]? = none ∧
      ∀ p e, st'.entries[p]? = some e → FromMember layers p e := by
  intro sources
  induction sources with
  | nil =>
    intro k st st' _ hroot hfrom h
    cases h
    exact ⟨by simp, hroot, hfrom⟩
  | cons source sources ih =>
    intro k st st' hdrop hroot hfrom h
    obtain ⟨st₁, h₁, h⟩ := Res.bind_ok h
    obtain ⟨hfail, hroot₁, hentries⟩ := mergeLayer_recorded hroot h₁
    have hk : layers[k]? = some source := by
      have := congrArg List.head? hdrop
      rwa [List.head?_drop] at this
    have hd : layers.drop (k + 1) = sources := by
      have := congrArg List.tail hdrop
      rwa [List.tail_drop] at this
    have hfrom₁ : ∀ p e, st₁.entries[p]? = some e → FromMember layers p e := by
      intro p e he
      rcases hentries p e he with hl | ⟨m, hm⟩
      · exact hfrom p e hl
      · have hlayer := hm.layer
        subst hlayer
        exact ⟨source, m, hk, hm⟩
    obtain ⟨hfails, hrest⟩ := ih hd hroot₁ hfrom₁ h
    exact ⟨fun s hs => (List.mem_cons.mp hs).elim (fun e => e ▸ hfail) (hfails s), hrest⟩

/-- A plan is made from layers that decode, and each of its entries from a member. -/
theorem buildPlan_entryOf {limits : MergeLimits} {layers : List DecodedLayer} {plan : MergePlan}
    (h : buildPlan limits layers = .ok plan) :
    (∀ source ∈ layers, source.failure = none) ∧ plan.entries[([] : Bytes)]? = none ∧
      (∀ p e, plan.entries[p]? = some e → FromMember layers p e) ∧ planHardlinks plan.entries = .ok plan.overrides := by
  obtain ⟨st, hst, h⟩ := Res.bind_ok h
  obtain ⟨ov, hov, h⟩ := Res.bind_ok h
  cases h
  obtain ⟨hfail, hroot, hfrom⟩ := mergeLayersFrom_recorded (List.drop_zero : layers.drop 0 = layers) (by simp) (by simp) hst
  exact ⟨hfail, hroot, hfrom, hov⟩

/-! ## Repairs -/

section Repairs

variable (entries : Entries)

/-- The layer, the ordinal and the size of the content a shadowed hard link is repaired from. -/
def repairOf (e : MergedEntry) : Option (Nat × Nat × Nat) :=
  if e.kind = .hardLink ∧ ¬(e.linkTarget.bind (entries[·]?)).any (·.layer = e.layer) = true then
    e.localTarget.map (e.layer, ·)
  else none

/-- The first path of a list that is repaired from one content. -/
def firstWith (l : List (Bytes × MergedEntry)) (k o : Nat) : Option Bytes :=
  (l.find? fun x => (repairOf entries x.2).any fun r => r.1 = k && r.2.1 = o).map (·.1)

/-- A repaired link is re-pointed at the first one with its content, when that name fits, and else carries it itself. -/
def repairMode (first : Option Bytes) (p : Bytes) (o size : Nat) : EmitMode :=
  match first with
  | none => .promote o size
  | some r => if r = p ∨ ustarLinkNameLimit < r.length then .promote o size else .relink r

/-- An intact hard link: its target is an entry of its own layer, or the regular file another layer has there. -/
def Intact (e : MergedEntry) : Prop :=
  ∃ t w, e.linkTarget = some t ∧ entries[t]? = some w ∧ (w.layer = e.layer ∨ (e.localTarget = none ∧ w.kind = .regular))

/-- What `planHardlink` has decided after a first part of the map. -/
structure Decided (done : List (Bytes × MergedEntry)) (st : LinkPlan) : Prop where
  firsts : ∀ k o, st.representatives.lookup (k, o) = firstWith entries done k o
  modes : ∀ p e, (p, e) ∈ done →
    st.overrides[p]? = (repairOf entries e).map fun r => repairMode (firstWith entries done r.1 r.2.1) p r.2.1 r.2.2
  others : ∀ p, p ∉ done.map (·.1) → st.overrides[p]? = none
  intact : ∀ p e, (p, e) ∈ done → e.kind = .hardLink → repairOf entries e = none → Intact entries e

variable {entries} {done : List (Bytes × MergedEntry)} {st st' : LinkPlan} {p : Bytes} {e : MergedEntry}

theorem firstWith_append (k o : Nat) : firstWith entries (done ++ [(p, e)]) k o =
    (firstWith entries done k o).or
      (if (repairOf entries e).any (fun r => r.1 = k && r.2.1 = o) = true then some p else none) := by
  unfold firstWith
  rw [List.find?_append]
  cases done.find? _ with
  | some x => rfl
  | none =>
    simp only [List.find?_cons, List.find?_nil, Option.none_or, Option.map_none]
    split <;> simp_all

/-- A repaired entry of the list has a first one with its content. -/
theorem firstWith_of_mem {k o size : Nat} (h : (p, e) ∈ done) (hr : repairOf entries e = some (k, o, size)) :
    ∃ r, firstWith entries done k o = some r := by
  cases hf : firstWith entries done k o with
  | some r => exact ⟨r, rfl⟩
  | none =>
    unfold firstWith at hf
    rw [Option.map_eq_none_iff, List.find?_eq_none] at hf
    exact absurd (by simp [hr]) (hf (p, e) h)

/-- An entry that is left as it is changes no decision. -/
theorem Decided.skip (hd : Decided entries done st) (hp : p ∉ done.map (·.1)) (hr : repairOf entries e = none)
    (hi : e.kind = .hardLink → Intact entries e) : Decided entries (done ++ [(p, e)]) st := by
  have hfirst : ∀ k o, firstWith entries (done ++ [(p, e)]) k o = firstWith entries done k o := by
    intro k o
    rw [firstWith_append, hr]
    simp
  refine ⟨fun k o => by rw [hfirst, hd.firsts], fun q e' hm => ?_, fun q hq => ?_, fun q e' hm hk hn => ?_⟩
  · simp only [hfirst]
    rcases List.mem_append.mp hm with hm | hm
    · exact hd.modes q e' hm
    · obtain ⟨rfl, rfl⟩ := Prod.mk.inj (List.mem_singleton.mp hm)
      rw [hr, hd.others q hp]
      rfl
  · exact hd.others q fun h => hq (by rw [List.map_append]; exact List.mem_append_left _ h)
  · rcases List.mem_append.mp hm with hm | hm
    · exact hd.intact q e' hm hk hn
    · obtain ⟨rfl, rfl⟩ := Prod.mk.inj (List.mem_singleton.mp hm)
      exact hi hk

/-- A repaired entry gets its mode; those before it keep theirs. -/
theorem Decided.repair (hd : Decided entries done st) (hp : p ∉ done.map (·.1)) {k o size : Nat}
    (hr : repairOf entries e = some (k, o, size)) {reps : List ((Nat × Nat) × Bytes)}
    (hreps : ∀ k' o', reps.lookup (k', o') = firstWith entries (done ++ [(p, e)]) k' o') :
    Decided entries (done ++ [(p, e)])
      ⟨st.overrides.insert p (repairMode (firstWith entries (done ++ [(p, e)]) k o) p o size), reps⟩ := by
  refine ⟨hreps, fun q e' hm => ?_, fun q hq => ?_, fun q e' hm hk hn => ?_⟩
  · simp only [Std.TreeMap.getElem?_insert]
    rcases List.mem_append.mp hm with hm | hm
    · have hne : ¬compare p q = .eq := fun h =>
        hp (by rw [Std.LawfulEqCmp.compare_eq_iff_eq.mp h]; exact List.mem_map_of_mem hm)
      rw [if_neg hne, hd.modes q e' hm]
      cases hr' : repairOf entries e' with
      | none => rfl
      | some r =>
        obtain ⟨first, hfirst⟩ := firstWith_of_mem hm hr'
        simp [firstWith_append, hfirst]
    · obtain ⟨rfl, rfl⟩ := Prod.mk.inj (List.mem_singleton.mp hm)
      rw [if_pos (Std.LawfulEqCmp.compare_eq_iff_eq.mpr rfl), hr]
      rfl
  · simp only [List.map_append, List.map_cons, List.map_nil, List.mem_append, List.mem_singleton, not_or] at hq
    rw [Std.TreeMap.getElem?_insert, if_neg fun h => hq.2 (Std.LawfulEqCmp.compare_eq_iff_eq.mp h).symm]
    exact hd.others q hq.1
  · rcases List.mem_append.mp hm with hm | hm
    · exact hd.intact q e' hm hk hn
    · obtain ⟨rfl, rfl⟩ := Prod.mk.inj (List.mem_singleton.mp hm)
      rw [hr] at hn
      cases hn

theorem Decided.step (hd : Decided entries done st) (hp : p ∉ done.map (·.1))
    (h : planHardlink entries st (p, e) = .ok st') : Decided entries (done ++ [(p, e)]) st' := by
  unfold planHardlink at h
  simp only at h
  split at h
  · rename_i hk
    cases h
    exact hd.skip hp (by simp [repairOf, hk]) fun h => absurd h hk
  rename_i hk
  rw [ne_eq, not_not] at hk
  cases ht : e.linkTarget with
  | none => rw [ht] at h; cases h
  | some t =>
    simp only [ht] at h
    split at h
    · rename_i hw
      cases h
      obtain ⟨w, hget, hl⟩ := Option.any_eq_true _ _ |>.mp hw
      exact hd.skip hp (by simp [repairOf, ht, hw]) fun _ => ⟨t, w, ht, hget, Or.inl (by simpa using hl)⟩
    rename_i hw
    cases hlocal : e.localTarget with
    | none =>
      simp only [hlocal] at h
      split at h
      · rename_i hreg
        cases h
        obtain ⟨w, hget, hl⟩ := Option.any_eq_true _ _ |>.mp hreg
        exact hd.skip hp (by simp [repairOf, hlocal]) fun _ => ⟨t, w, ht, hget, Or.inr ⟨hlocal, by simpa using hl⟩⟩
      · cases h
    | some content =>
      obtain ⟨o, size⟩ := content
      simp only [hlocal] at h
      have hr : repairOf entries e = some (e.layer, o, size) := by simp [repairOf, hk, ht, hw, hlocal]
      have hany : ∀ k' o', (repairOf entries e).any (fun r => r.1 = k' && r.2.1 = o') = true ↔
          (k', o') = (e.layer, o) := by
        intro k' o'
        simp only [hr, Option.any_some, Bool.and_eq_true, decide_eq_true_eq, Prod.mk.injEq]
        exact and_congr eq_comm eq_comm
      rw [hd.firsts] at h
      cases hf : firstWith entries done e.layer o with
      | some r =>
        have hfirst : ∀ k' o', firstWith entries (done ++ [(p, e)]) k' o' = firstWith entries done k' o' := by
          intro k' o'
          rw [firstWith_append]
          split
          · rename_i heq
            obtain ⟨rfl, rfl⟩ := Prod.mk.inj ((hany k' o').mp heq)
            rw [hf]
            rfl
          · exact Option.or_none
        have hrp : r ≠ p := by
          rintro rfl
          unfold firstWith at hf
          obtain ⟨x, hx, rfl⟩ := Option.map_eq_some_iff.mp hf
          exact hp (List.mem_map_of_mem (List.mem_of_find?_eq_some hx))
        have hmode : repairMode (firstWith entries (done ++ [(p, e)]) e.layer o) p o size =
            if r.length ≤ ustarLinkNameLimit then EmitMode.relink r else .promote o size := by
          rw [hfirst, hf]
          simp only [repairMode, hrp, false_or]
          by_cases hlen : r.length ≤ ustarLinkNameLimit
          · rw [if_neg (by omega), if_pos hlen]
          · rw [if_pos (by omega), if_neg hlen]
        simp only [hf] at h
        cases h
        rw [← hmode]
        exact hd.repair hp hr fun k' o' => by rw [hfirst, hd.firsts]
      | none =>
        have hself : firstWith entries (done ++ [(p, e)]) e.layer o = some p := by
          rw [firstWith_append, hf, if_pos ((hany _ _).mpr rfl)]
          rfl
        have hmode : repairMode (firstWith entries (done ++ [(p, e)]) e.layer o) p o size = .promote o size := by
          rw [hself]
          simp [repairMode]
        simp only [hf] at h
        cases h
        rw [← hmode]
        refine hd.repair hp hr fun k' o' => ?_
        rw [firstWith_append, List.lookup_cons, hd.firsts]
        by_cases hkey : (k', o') = (e.layer, o)
        · obtain ⟨rfl, rfl⟩ := Prod.mk.inj hkey
          rw [if_pos ((hany _ _).mpr rfl), hf]
          simp
        · rw [if_neg fun h => hkey ((hany _ _).mp h), Option.or_none]
          have : ((k', o') == (e.layer, o)) = false := by simpa using hkey
          rw [this]

theorem repairOf_some {k o size : Nat} : repairOf entries e = some (k, o, size) ↔
    e.layer = k ∧ e.kind = .hardLink ∧ ¬(e.linkTarget.bind (entries[·]?)).any (·.layer = e.layer) = true ∧
      e.localTarget = some (o, size) := by
  unfold repairOf
  split
  · rename_i h
    cases e.localTarget with
    | none => simp
    | some r => simp [h.1, h.2]
  · rename_i h
    simp only [reduceCtorEq, false_iff]
    exact fun hc => h ⟨hc.2.1, hc.2.2.1⟩

/-- The decisions over the whole map. -/
theorem planHardlinks_ok {ov : Std.TreeMap Bytes EmitMode} (h : planHardlinks entries = .ok ov) :
    ∃ st : LinkPlan, st.overrides = ov ∧ Decided entries entries.toList st := by
  obtain ⟨st, hst, h⟩ := Res.bind_ok h
  cases h
  refine ⟨st, rfl, ?_⟩
  have hnodup : (entries.toList.map (·.1)).Nodup := by
    rw [Std.TreeMap.map_fst_toList_eq_keys]
    exact Std.TreeMap.nodup_keys
  have h0 : (([] : List (Bytes × MergedEntry)).map (·.1)).Nodup → Decided entries [] ⟨∅, []⟩ :=
    fun _ => ⟨fun _ _ => rfl, by simp, by simp, by simp⟩
  refine foldlM_invariant (fun done st => (done.map (·.1)).Nodup → Decided entries done st) ?_ h0 hst hnodup
  intro done x s s' hs hx hn
  rw [List.map_append, List.nodup_append] at hn
  exact (hs hn.1).step (fun hm => hn.2.2 _ hm x.1 (by simp) rfl) hx

end Repairs

/-- How a plan has an entry emitted. -/
theorem buildPlan_mode {limits : MergeLimits} {layers : List DecodedLayer} {plan : MergePlan}
    (h : buildPlan limits layers = .ok plan) {p : Bytes} {e : MergedEntry} (he : plan.entries[p]? = some e) :
    plan.overrides[p]? = (repairOf plan.entries e).map fun r =>
      repairMode (firstWith plan.entries plan.entries.toList r.1 r.2.1) p r.2.1 r.2.2 := by
  obtain ⟨_, _, _, hov⟩ := buildPlan_entryOf h
  obtain ⟨st, hst, hd⟩ := planHardlinks_ok hov
  rw [← hst]
  exact hd.modes p e (Std.TreeMap.mem_toList_iff_getElem?_eq_some.mpr he)

/-- A hard link that a plan leaves as it is has its target. -/
theorem buildPlan_intact {limits : MergeLimits} {layers : List DecodedLayer} {plan : MergePlan}
    (h : buildPlan limits layers = .ok plan) {p : Bytes} {e : MergedEntry} (he : plan.entries[p]? = some e)
    (hk : e.kind = .hardLink) (hr : repairOf plan.entries e = none) : Intact plan.entries e := by
  obtain ⟨_, _, _, hov⟩ := buildPlan_entryOf h
  obtain ⟨_, _, hd⟩ := planHardlinks_ok hov
  exact hd.intact p e (Std.TreeMap.mem_toList_iff_getElem?_eq_some.mpr he) hk hr

/-- A promoted entry is repaired from the content it is promoted with. -/
theorem repairOf_of_promote {limits : MergeLimits} {layers : List DecodedLayer} {plan : MergePlan}
    (h : buildPlan limits layers = .ok plan) {p : Bytes} {e : MergedEntry} (he : plan.entries[p]? = some e)
    {o size : Nat} (hm : plan.overrides[p]? = some (.promote o size)) :
    repairOf plan.entries e = some (e.layer, o, size) := by
  rw [buildPlan_mode h he] at hm
  obtain ⟨⟨k, o', size'⟩, hr, hmode⟩ := Option.map_eq_some_iff.mp hm
  have hk := (repairOf_some.mp hr).1
  unfold repairMode at hmode
  split at hmode
  · cases hmode
    rw [hr, hk]
  · split at hmode
    · cases hmode
      rw [hr, hk]
    · cases hmode

end Firestone.Oci
