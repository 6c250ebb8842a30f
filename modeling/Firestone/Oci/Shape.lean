import Firestone.Oci.Stream

/-!
# The shape of the merged tar

The members of the output as a reader sees them, in order, and two things a consumer needs of them.

* `FileTree` — nothing lies below a member that is not a directory. Pass one drops what lower layers hold below a new
  member that is not a directory, and looks at nothing else: `mergeLayers_fileTree_iff` says which requests are left.
* `ExtractionOrder` — paths increase, and every hard link comes after its target. The order of the plan is that of
  paths, which is not that of links: `mergeLayers_order_iff`.
-/

namespace Firestone.Oci

open Firestone.Lib

section ops

variable (ops : HeaderOps) (request : MergeRequest)

/-- The members of the output as the module's own reader sees them. -/
def Merged.members (merged : Merged) : List TarMember := merged.emissions.filterMap fun em => em.read ops

/-! ## Names -/

/-- The name an injected member is written under. -/
def injectedName (p : Bytes) : List Bytes := rawComponents (bytes (fromUtf8Lossy p))

/-- A surviving member that no injected one shadows, and the name a reader gives it: its path, unless the records that
its repair drops hid another one. -/
structure Placed (p : Bytes) (k : Nat) (it : TarItem) (name : List Bytes) : Prop where
  survives : ∃ i, Survives ops request p k i it
  unshadowed : p ∉ request.injected ops
  name : (∃ t, Relinked ops request p t ∧ name = rawComponents (it.member.repairedPath ops false)) ∨
    (∃ k o size, Promoted ops request p k o size ∧ name = rawComponents (it.member.repairedPath ops true)) ∨
    ((∀ k o size, ¬Repaired ops request p k o size) ∧ name = components p)

/-- The member planned at a path is read under this name. -/
def Seat (p : Bytes) (name : List Bytes) : Prop :=
  (p ∈ request.injected ops ∧ name = injectedName p) ∨ ∃ k it, Placed ops request p k it name

variable {ops request} {plan : MergePlan}

/-- The slot of an entry shows the name of the member placed there. -/
theorem placed_of_slot (h : buildPlan request.limits (request.decoded ops) = .ok plan) {p : Bytes} {e : MergedEntry}
    (hs : Slot.entry p e ∈ slots request plan) : ∃ it, Holding ops request p e it ∧
      Placed ops request p e.layer it (shownPath ops request plan (.entry p e)) := by
  rcases (mem_slots_iff h).mp hs with ⟨q, _, hq⟩ | ⟨q, e', hq, he, hp⟩
  · cases hq
  cases hq
  obtain ⟨it, hold⟩ := holding_of_entry h he
  refine ⟨it, hold, ⟨e.ordinal, hold.survives⟩, hp, ?_⟩
  simp only [shownPath, hold.survives.2]
  cases hmode : plan.overrides[p]? with
  | none => exact Or.inr (Or.inr ⟨(mode_none_iff h he).mp hmode, hold.path⟩)
  | some mode =>
    cases mode with
    | relink t => exact Or.inl ⟨t, (mode_relink_iff h he).mp hmode, rfl⟩
    | promote o size => exact Or.inr (Or.inl ⟨_, o, size, (mode_promote_iff h he).mp hmode, rfl⟩)

/-- The member placed at a path has a slot that shows its name. -/
theorem slot_of_placed (h : buildPlan request.limits (request.decoded ops) = .ok plan) {p : Bytes} {k : Nat}
    {it : TarItem} {name : List Bytes} (hp : Placed ops request p k it name) :
    ∃ e, Slot.entry p e ∈ slots request plan ∧ e.layer = k ∧ Holding ops request p e it ∧
      shownPath ops request plan (.entry p e) = name := by
  obtain ⟨i, hs⟩ := hp.survives
  obtain ⟨e, he, rfl, rfl, hold⟩ := entry_of_survives h hs
  refine ⟨e, (mem_slots_iff h).mpr (Or.inr ⟨p, e, rfl, he, hp.unshadowed⟩), rfl, hold, ?_⟩
  simp only [shownPath, hold.survives.2]
  rcases hp.name with ⟨t, hr, rfl⟩ | ⟨k, o, size, hr, rfl⟩ | ⟨hr, rfl⟩
  · rw [(mode_relink_iff h he).mpr hr]
  · obtain ⟨e', he', hrep⟩ := (repairOf_iff h).mpr hr.1
    rw [he] at he'
    cases he'
    obtain ⟨rfl, _⟩ := repairOf_some.mp hrep
    rw [(mode_promote_iff h he).mpr hr]
  · rw [(mode_none_iff h he).mpr hr]
    exact hold.path

theorem seat_iff (h : buildPlan request.limits (request.decoded ops) = .ok plan) {p : Bytes} {name : List Bytes} :
    Seat ops request p name ↔ ∃ s ∈ slots request plan, s.path = p ∧ shownPath ops request plan s = name := by
  constructor
  · rintro (⟨hp, rfl⟩ | ⟨k, it, hp⟩)
    · exact ⟨.injected p, (mem_slots_iff h).mpr (Or.inl ⟨p, hp, rfl⟩), rfl, rfl⟩
    · obtain ⟨e, hs, _, _, hname⟩ := slot_of_placed h hp
      exact ⟨_, hs, rfl, hname⟩
  · rintro ⟨s, hs, rfl, rfl⟩
    cases s with
    | injected q =>
      rcases (mem_slots_iff h).mp hs with ⟨q', hq, heq⟩ | ⟨q', e, heq, _⟩
      · cases heq
        exact Or.inl ⟨hq, rfl⟩
      · cases heq
    | entry q e =>
      obtain ⟨it, _, hp⟩ := placed_of_slot h hs
      exact Or.inr ⟨_, it, hp⟩

/-- A slot's kind is that of the member it comes from. -/
theorem kind_directory_iff (h : buildPlan request.limits (request.decoded ops) = .ok plan) {p : Bytes} {e : MergedEntry}
    (he : plan.entries[p]? = some e) {it : TarItem} (hold : Holding ops request p e it) :
    (Slot.entry p e).kind plan = .directory ↔ it.member.entryType = .directory := by
  cases hmode : plan.overrides[p]? with
  | none => simp only [Slot.kind, hmode, hold.kind, classifyEntry_directory]
  | some mode =>
    cases mode with
    | relink t => simp only [Slot.kind, hmode, hold.kind, classifyEntry_directory]
    | promote o size =>
      obtain ⟨_, hk, _⟩ := repairOf_some.mp (repairOf_of_promote h he hmode)
      rw [hold.kind, classifyEntry_hardLink] at hk
      simp [Slot.kind, hmode, hk]

/-! ## The members of the output -/

variable (ops request plan) in
/-- A reader sees the slot as this member. -/
structure Slot.SeenAs (s : Slot) (m : TarMember) : Prop where
  path : rawComponents m.path = shownPath ops request plan s
  kind : classifyEntry m.entryType = s.kind plan
  link : s.kind plan = .hardLink → ∃ t, s.link plan = some t ∧ rawComponents (m.link.getD []) = components t

theorem members_of_emits (laws : ops.Lawful) (h : buildPlan request.limits (request.decoded ops) = .ok plan)
    {ss : List Slot} {out : List (Emission × Nat)}
    (hall : List.Forall₂ (fun s x => Emits ops request plan s x.1 x.2) ss out) (hmem : ∀ s ∈ ss, s ∈ slots request plan) :
    List.Forall₂ (Slot.SeenAs ops request plan) ss ((out.map (·.1)).filterMap fun em => em.read ops) := by
  induction hall with
  | nil => exact .nil
  | @cons s x ss out hx _ ih =>
    obtain ⟨m, hm⟩ := Emits.shown laws h (hmem _ List.mem_cons_self) hx
    rw [List.map_cons, List.filterMap_cons_some (Emission.read_of_sound hm.sound hm.header hm.extensions)]
    exact .cons ⟨hm.path, hm.kind, hm.link⟩ (ih fun s' h' => hmem s' (List.mem_cons_of_mem _ h'))

/-- The members of the output are the slots of the plan, one by one. -/
theorem mergeLayers_members (laws : ops.Lawful) {merged : Merged} (h : mergeLayers ops request = .ok merged) :
    ∃ plan, buildPlan request.limits (request.decoded ops) = .ok plan ∧
      List.Forall₂ (Slot.SeenAs ops request plan) (slots request plan) (merged.members ops) := by
  obtain ⟨plan, out, hplan, hall, hem, _⟩ := mergeLayers_ok h
  refine ⟨plan, hplan, ?_⟩
  rw [Merged.members, hem]
  exact members_of_emits laws hplan hall fun s hs => hs

theorem forall₂_mem_right {α β : Type} {R : α → β → Prop} {l : List α} {l' : List β} (h : List.Forall₂ R l l') {b : β}
    (hb : b ∈ l') : ∃ a ∈ l, R a b := by
  induction h with
  | nil => cases hb
  | cons hx _ ih =>
    rcases List.mem_cons.mp hb with rfl | hb
    · exact ⟨_, List.mem_cons_self, hx⟩
    · obtain ⟨a, ha, hr⟩ := ih hb
      exact ⟨a, List.mem_cons_of_mem _ ha, hr⟩

theorem forall₂_mem_left {α β : Type} {R : α → β → Prop} {l : List α} {l' : List β} (h : List.Forall₂ R l l') {a : α}
    (ha : a ∈ l) : ∃ b ∈ l', R a b := by
  induction h with
  | nil => cases ha
  | cons hx _ ih =>
    rcases List.mem_cons.mp ha with rfl | ha
    · exact ⟨_, List.mem_cons_self, hx⟩
    · obtain ⟨b, hb, hr⟩ := ih ha
      exact ⟨b, List.mem_cons_of_mem _ hb, hr⟩

/-! ## Layers that delete -/

theorem overlayFrom_cases {q : List Bytes} {s : Nat × Nat} : ∀ {sources : List DecodedLayer} {k : Nat}
    {lower : Survivors}, overlayFrom k sources lower q = some s → lower q = some s ∨ k ≤ s.1 := by
  intro sources
  induction sources with
  | nil => intro k lower h; exact Or.inl h
  | cons source sources ih =>
    intro k lower h
    rcases ih h with h | h
    · simp only [overlayLayer] at h
      cases hl : lastAdds 0 source.members q with
      | some i =>
        rw [hl] at h
        cases h
        exact Or.inr (Nat.le_refl _)
      | none =>
        rw [hl, Option.map_none, Option.none_or] at h
        split at h
        · cases h
        · exact Or.inl h
    · exact Or.inr (by omega)

/-- What survives a layer that deletes its path comes from that layer or a higher one. -/
theorem overlay_deletes {q : List Bytes} {s : Nat × Nat} {source : DecodedLayer} {m : Member} (hd : m.Deletes q)
    (hm : m ∈ source.members) : ∀ {sources : List DecodedLayer} {k j : Nat} {lower : Survivors},
    sources[j]? = some source → overlayFrom k sources lower q = some s → k + j ≤ s.1 := by
  intro sources
  induction sources with
  | nil => intro k j lower hj; simp at hj
  | cons source' sources ih =>
    intro k j lower hj h
    cases j with
    | zero =>
      rw [List.getElem?_cons_zero] at hj
      cases hj
      rw [overlayFrom] at h
      rcases overlayFrom_cases h with h | h
      · simp only [overlayLayer] at h
        rw [if_pos ⟨m, hm, hd⟩, Option.or_none] at h
        obtain ⟨i, _, rfl⟩ := Option.map_eq_some_iff.mp h
        exact Nat.le_refl _
      · omega
    | succ j =>
      rw [List.getElem?_cons_succ] at hj
      have := ih hj h
      omega

/-- A member that is not a directory leaves nothing of the layers below it under its path. -/
theorem layer_le_of_below {p p' : Bytes} {e : MergedEntry} {it : TarItem} (hold : Holding ops request p e it)
    (hdir : it.member.entryType ≠ .directory) {k' i' : Nat} {it' : TarItem} (hs : Survives ops request p' k' i' it')
    (hbelow : StrictlyBelow (components p) (components p')) : e.layer ≤ k' := by
  obtain ⟨source, hsource, hentry⟩ := hold.entryOf
  have hdel : it.view.Deletes (components p') := by
    unfold Member.Deletes
    rw [hentry.adds.1, hentry.adds.2]
    exact ⟨hdir, hbelow⟩
  have := overlay_deletes hdel (List.mem_of_getElem? hentry.member) hsource hs.1
  simpa using this

/-! ## The file tree -/

/-- No member lies below one that is not a directory. -/
def FileTree (ms : List TarMember) : Prop :=
  ∀ d ∈ ms, ∀ m ∈ ms, d.entryType ≠ .directory → ¬StrictlyBelow (rawComponents d.path) (rawComponents m.path)

instance (ms : List TarMember) : Decidable (FileTree ms) :=
  inferInstanceAs (Decidable (∀ d ∈ ms, ∀ m ∈ ms, d.entryType ≠ .directory → ¬StrictlyBelow _ _))

variable (ops request) in
/-- What pass one does not see to: a surviving member that is not a directory has nothing below it from its own layer or
a higher one (nor, when one of the two goes by another name, from any layer), and an injected path has nothing below it
and no member that is not a directory above it. -/
structure TreeShaped : Prop where
  members : ∀ p k it name p' k' it' name', Placed ops request p k it name → Placed ops request p' k' it' name' →
    it.member.entryType ≠ .directory → (k ≤ k' ∨ name ≠ components p ∨ name' ≠ components p') →
    ¬StrictlyBelow name name'
  belowInjected : ∀ q ∈ request.injected ops, ∀ p k it name, Placed ops request p k it name →
    ¬StrictlyBelow (injectedName q) name
  aboveInjected : ∀ q ∈ request.injected ops, ∀ p k it name, Placed ops request p k it name →
    it.member.entryType ≠ .directory → ¬StrictlyBelow name (injectedName q)
  injected : ∀ q ∈ request.injected ops, ∀ q' ∈ request.injected ops, ¬StrictlyBelow (injectedName q) (injectedName q')

/-- The tree of the output in terms of the slots. -/
theorem fileTree_slots {ms : List TarMember} (hall : List.Forall₂ (Slot.SeenAs ops request plan) (slots request plan) ms) :
    FileTree ms ↔ ∀ s ∈ slots request plan, ∀ s' ∈ slots request plan, s.kind plan ≠ .directory →
      ¬StrictlyBelow (shownPath ops request plan s) (shownPath ops request plan s') := by
  constructor
  · intro ht s hs s' hs' hk
    obtain ⟨d, hd, hseen⟩ := forall₂_mem_left hall hs
    obtain ⟨m, hm, hseen'⟩ := forall₂_mem_left hall hs'
    rw [← hseen.path, ← hseen'.path]
    exact ht d hd m hm fun hdir => hk (by rw [← hseen.kind, classifyEntry_directory.mpr hdir])
  · intro ht d hd m hm hk
    obtain ⟨s, hs, hseen⟩ := forall₂_mem_right hall hd
    obtain ⟨s', hs', hseen'⟩ := forall₂_mem_right hall hm
    rw [hseen.path, hseen'.path]
    exact ht s hs s' hs' fun hdir => hk (classifyEntry_directory.mp (by rw [hseen.kind, hdir]))

/-- **The merged tree** is a file tree exactly when the request is shaped so. -/
theorem mergeLayers_fileTree_iff (laws : ops.Lawful) {merged : Merged} (h : mergeLayers ops request = .ok merged) :
    FileTree (merged.members ops) ↔ TreeShaped ops request := by
  obtain ⟨plan, hplan, hall⟩ := mergeLayers_members laws h
  rw [fileTree_slots hall]
  have hinjected : ∀ q ∈ request.injected ops, Slot.injected q ∈ slots request plan := fun q hq =>
    (mem_slots_iff hplan).mpr (Or.inl ⟨q, hq, rfl⟩)
  have hentry : ∀ {p e}, Slot.entry p e ∈ slots request plan → plan.entries[p]? = some e := by
    intro p e hs
    rcases (mem_slots_iff hplan).mp hs with ⟨q, _, hq⟩ | ⟨q, e', hq, he, _⟩
    · cases hq
    · cases hq
      exact he
  constructor
  · intro ht
    refine ⟨?_, ?_, ?_, fun q hq q' hq' => ?_⟩
    · intro p k it name p' k' it' name' hp hp' hdir _
      obtain ⟨e, hs, _, hold, rfl⟩ := slot_of_placed hplan hp
      obtain ⟨e', hs', _, _, rfl⟩ := slot_of_placed hplan hp'
      exact ht _ hs _ hs' fun hk => hdir ((kind_directory_iff hplan (hentry hs) hold).mp hk)
    · intro q hq p k it name hp
      obtain ⟨e, hs, _, _, rfl⟩ := slot_of_placed hplan hp
      exact ht _ (hinjected q hq) _ hs (by simp [Slot.kind])
    · intro q hq p k it name hp hdir
      obtain ⟨e, hs, _, hold, rfl⟩ := slot_of_placed hplan hp
      exact ht _ hs _ (hinjected q hq) fun hk => hdir ((kind_directory_iff hplan (hentry hs) hold).mp hk)
    · exact ht _ (hinjected q hq) _ (hinjected q' hq') (by simp [Slot.kind])
  · intro ht s hs s' hs' hk hbelow
    cases s with
    | injected q =>
      rcases (mem_slots_iff hplan).mp hs with ⟨_, hq, heq⟩ | ⟨_, _, heq, _⟩
      · cases heq
        cases s' with
        | injected q' =>
          rcases (mem_slots_iff hplan).mp hs' with ⟨_, hq', heq⟩ | ⟨_, _, heq, _⟩
          · cases heq
            exact ht.injected q hq q' hq' hbelow
          · cases heq
        | entry p' e' =>
          obtain ⟨it', _, hp'⟩ := placed_of_slot hplan hs'
          exact ht.belowInjected q hq p' _ it' _ hp' hbelow
      · cases heq
    | entry p e =>
      obtain ⟨it, hold, hp⟩ := placed_of_slot hplan hs
      have hdir : it.member.entryType ≠ .directory := fun hd => hk ((kind_directory_iff hplan (hentry hs) hold).mpr hd)
      cases s' with
      | injected q' =>
        rcases (mem_slots_iff hplan).mp hs' with ⟨_, hq', heq⟩ | ⟨_, _, heq, _⟩
        · cases heq
          exact ht.aboveInjected q' hq' p _ it _ hp hdir hbelow
        · cases heq
      | entry p' e' =>
        obtain ⟨it', hold', hp'⟩ := placed_of_slot hplan hs'
        refine ht.members p _ it _ p' _ it' _ hp hp' hdir ?_ hbelow
        by_cases hname : shownPath ops request plan (.entry p e) = components p ∧
            shownPath ops request plan (.entry p' e') = components p'
        · rw [hname.1, hname.2] at hbelow
          exact Or.inl (layer_le_of_below hold hdir hold'.survives hbelow)
        · rw [not_and_or] at hname
          exact Or.inr hname

end ops

theorem mergeLayers_fileTree_shadowedLinks : ∃ merged, mergeLayers Ustar.ops shadowedLinks = .ok merged ∧
    (FileTree (merged.members Ustar.ops) ↔ TreeShaped Ustar.ops shadowedLinks) ∧ TreeShaped Ustar.ops shadowedLinks := by
  obtain ⟨merged, h, htree⟩ := Res.exists_ok_any (x := mergeLayers Ustar.ops shadowedLinks) (p := fun m =>
    FileTree (m.members Ustar.ops)) (by decide +kernel)
  have hiff := mergeLayers_fileTree_iff Ustar.lawful h
  exact ⟨merged, h, hiff, hiff.mp (of_decide_eq_true htree)⟩

/-- The upper layer puts a file below a symlink of the lower one. -/
def childBelowSymlink : MergeRequest := sampleRequest
  [Ustar.layer "l0" [Ustar.member "sbin" .symlink "usr/sbin" []],
    Ustar.layer "l1" [Ustar.member "sbin/tool" .regular "" [1]]] none

/-- Both are in the output. -/
theorem childBelowSymlink_not_fileTree : ∃ merged, mergeLayers Ustar.ops childBelowSymlink = .ok merged ∧
    ¬FileTree (merged.members Ustar.ops) := by
  obtain ⟨merged, h, htree⟩ := Res.exists_ok_any (x := mergeLayers Ustar.ops childBelowSymlink) (p := fun m =>
    ¬FileTree (m.members Ustar.ops)) (by decide +kernel)
  exact ⟨merged, h, of_decide_eq_true htree⟩

/-! ## The order of extraction -/

section order

variable {ops : HeaderOps} {request : MergeRequest} {plan : MergePlan}

/-- The path of a list of components. -/
def joinComponents (name : List Bytes) : Bytes := [slash].intercalate name

/-- Normalized paths increase, every member comes after its ancestors, and every hard link after a member at its
target. -/
structure ExtractionOrder (ms : List TarMember) : Prop where
  increasing : ms.Pairwise fun a b : TarMember =>
    PathLt (joinComponents (rawComponents a.path)) (joinComponents (rawComponents b.path))
  ancestors : ∀ (i j : Nat) (a b : TarMember), ms[i]? = some a → ms[j]? = some b →
    StrictlyBelow (rawComponents a.path) (rawComponents b.path) → i < j
  links : ∀ (j : Nat) (b : TarMember), ms[j]? = some b → b.entryType = .link →
    ∃ (i : Nat) (a : TarMember), i < j ∧ ms[i]? = some a ∧ rawComponents a.path = rawComponents (b.link.getD [])

variable (ops request) in
/-- The member planned at a path goes by another name. -/
def Moved (p : Bytes) : Prop := ∃ name, Seat ops request p name ∧ name ≠ components p

variable (ops request) in
/-- A member before `p` goes by the name `t`, though it is planned elsewhere. -/
def Lent (t p : Bytes) : Prop := ∃ q, Seat ops request q (components t) ∧ q ≠ t ∧ PathLt q p

variable (ops request) in
/-- What sorting by path does not see to: members that go by another name keep their place, the target of every hard
link that is emitted as it stands sorts before the link, and the link that others are re-pointed at keeps its name. -/
structure OrderKept : Prop where
  moved : ∀ p name p' name', Seat ops request p name → Seat ops request p' name' → PathLt p p' →
    (name ≠ components p ∨ name' ≠ components p') → PathLt (joinComponents name) (joinComponents name')
  links : ∀ p k i it t, LinksTo ops request p k i it t → p ∉ request.injected ops →
    (∀ k o size, ¬Repaired ops request p k o size) → (PathLt t p ∧ ¬Moved ops request t) ∨ Lent ops request t p
  relinks : ∀ p t, Relinked ops request p t → p ∉ request.injected ops → ¬Moved ops request t ∨ Lent ops request t p

/-- In a sorted list the order of positions is that of paths. -/
theorem lt_iff_pathLt {ss : List Slot} (hs : ss.Pairwise fun a b => PathLt a.path b.path) {i j : Nat} {a b : Slot}
    (hi : ss[i]? = some a) (hj : ss[j]? = some b) : i < j ↔ PathLt a.path b.path := by
  obtain ⟨hil, rfl⟩ := List.getElem?_eq_some_iff.mp hi
  obtain ⟨hjl, rfl⟩ := List.getElem?_eq_some_iff.mp hj
  rw [List.pairwise_iff_getElem] at hs
  refine ⟨hs i j hil hjl, fun hlt => ?_⟩
  rcases Nat.lt_trichotomy i j with h | h | h
  · exact h
  · subst h
    exact absurd hlt (PathLt.irrefl _)
  · exact absurd (hlt.trans (hs j i hjl hil h)) (PathLt.irrefl _)

theorem forall₂_getElem? {α β : Type} {R : α → β → Prop} {l : List α} {l' : List β} (h : List.Forall₂ R l l') (i : Nat) :
    (l[i]? = none ∧ l'[i]? = none) ∨ ∃ a b, l[i]? = some a ∧ l'[i]? = some b ∧ R a b := by
  induction h generalizing i with
  | nil => exact Or.inl ⟨rfl, rfl⟩
  | @cons a b l l' hx _ ih =>
    cases i with
    | zero => exact Or.inr ⟨a, b, rfl, rfl, hx⟩
    | succ i => exact ih i

/-- A path sorts before everything below it. -/
theorem pathLt_of_below {name name' : List Bytes} (hne : [] ∉ name') (h : StrictlyBelow name name') :
    PathLt (joinComponents name) (joinComponents name') := by
  obtain ⟨rest, hrest, rfl⟩ := strictlyBelow_iff.mp h
  have hextend : ∀ (p : Bytes) (b : UInt8) (q : Bytes), PathLt p (p ++ b :: q) := by
    intro p b q
    induction p with
    | nil => exact List.compare_nil_cons
    | cons c p ih =>
      have hc : compare c c = .eq := Std.ReflCmp.compare_self
      unfold PathLt at ih ⊢
      rw [List.cons_append, List.compare_cons_cons, hc]
      exact ih
  by_cases hname : name = []
  · subst hname
    cases rest with
    | nil => exact absurd rfl hrest
    | cons c cs =>
      have hc : c ≠ [] := fun hc => hne (by simp [hc])
      have hjoin : joinComponents ([] ++ c :: cs) ≠ [] := by
        unfold joinComponents
        cases cs with
        | nil => simpa using hc
        | cons d ds =>
          rw [List.nil_append, List.intercalate_cons_cons]
          simp
      obtain ⟨b, q, hb⟩ := List.exists_cons_of_ne_nil hjoin
      rw [hb]
      exact hextend [] b q
  · unfold joinComponents
    rw [intercalate_append hname hrest]
    exact hextend _ _ _

/-- The path of a slot is never empty. -/
theorem path_ne_nil (h : buildPlan request.limits (request.decoded ops) = .ok plan) {s : Slot}
    (hs : s ∈ slots request plan) : s.path ≠ [] := by
  obtain ⟨_, hroot, _, _⟩ := buildPlan_entryOf h
  rcases (mem_slots_iff h).mp hs with ⟨p, hp, rfl⟩ | ⟨p, e, rfl, he, _⟩
  · intro hnil
    have hresolved : ∀ path, slash ∉ (splitLastComponent path).2 → (splitLastComponent path).2 ≠ [] →
        resolveThrough (symlinkAt ops request) path ≠ [] := fun path h1 h2 => (components_joinPath h1 h2).2
    have hmarker := hresolved firestoneOciMarkerPath (by decide) (by decide)
    have hinit := hresolved firestoneInitPath (by decide) (by decide)
    unfold MergeRequest.injected injectedThrough at hp
    cases hi : request.injectedInit with
    | none => rw [hi] at hp; cases hp
    | some b =>
      rw [hi] at hp
      simp only at hp
      split at hp <;> simp only [List.mem_cons, List.not_mem_nil, or_false] at hp <;> rcases hp with rfl | rfl
      exacts [hmarker hnil, hinit hnil, hinit hnil, hmarker hnil]
  · rintro rfl
    rw [hroot] at he
    cases he

theorem joinComponents_components {p : Bytes} (hp : p ≠ []) : joinComponents (components p) = p := by
  rw [components_of_ne hp]
  exact List.intercalate_splitOn slash

/-- No two slots share a path. -/
theorem slots_path_inj {s s' : Slot} (hs : s ∈ slots request plan) (hs' : s' ∈ slots request plan)
    (h : s.path = s'.path) : s = s' := by
  obtain ⟨i, hi⟩ := List.mem_iff_getElem?.mp hs
  obtain ⟨j, hj⟩ := List.mem_iff_getElem?.mp hs'
  have hij := lt_iff_pathLt (slots_sorted request plan) hi hj
  have hji := lt_iff_pathLt (slots_sorted request plan) hj hi
  rw [h] at hij
  rw [h] at hji
  have : i = j := by
    have := mt hij.mp (PathLt.irrefl _)
    have := mt hji.mp (PathLt.irrefl _)
    omega
  subst this
  rw [hi] at hj
  exact Option.some.inj hj

/-- The order of the output in terms of the slots. -/
theorem extractionOrder_slots {ms : List TarMember}
    (hall : List.Forall₂ (Slot.SeenAs ops request plan) (slots request plan) ms) :
    ExtractionOrder ms ↔
      (∀ s ∈ slots request plan, ∀ s' ∈ slots request plan, PathLt s.path s'.path →
        PathLt (joinComponents (shownPath ops request plan s)) (joinComponents (shownPath ops request plan s'))) ∧
      ∀ s ∈ slots request plan, s.kind plan = .hardLink → ∃ t, s.link plan = some t ∧
        ∃ q ∈ slots request plan, PathLt q.path s.path ∧ shownPath ops request plan q = components t := by
  have hsorted := slots_sorted request plan
  have hslot : ∀ {i : Nat} {m : TarMember}, ms[i]? = some m →
      ∃ s, (slots request plan)[i]? = some s ∧ s.SeenAs ops request plan m := by
    intro i m hm
    rcases forall₂_getElem? hall i with ⟨_, hn⟩ | ⟨s, m', hs, hm', hseen⟩
    · rw [hn] at hm; cases hm
    · rw [hm'] at hm
      cases hm
      exact ⟨s, hs, hseen⟩
  have hmember : ∀ {s : Slot}, s ∈ slots request plan →
      ∃ (i : Nat) (m : TarMember), (slots request plan)[i]? = some s ∧ ms[i]? = some m ∧ s.SeenAs ops request plan m := by
    intro s hs
    obtain ⟨i, hi⟩ := List.mem_iff_getElem?.mp hs
    rcases forall₂_getElem? hall i with ⟨hn, _⟩ | ⟨s', m, hs', hm, hseen⟩
    · rw [hn] at hi; cases hi
    · rw [hs'] at hi
      cases hi
      exact ⟨i, m, hs', hm, hseen⟩
  constructor
  · intro ho
    constructor
    · intro s hs s' hs' hlt
      obtain ⟨i, m, hi, hm, hseen⟩ := hmember hs
      obtain ⟨j, m', hj, hm', hseen'⟩ := hmember hs'
      have hij := (lt_iff_pathLt hsorted hi hj).mpr hlt
      obtain ⟨hil, rfl⟩ := List.getElem?_eq_some_iff.mp hm
      obtain ⟨hjl, rfl⟩ := List.getElem?_eq_some_iff.mp hm'
      rw [← hseen.path, ← hseen'.path]
      exact List.pairwise_iff_getElem.mp ho.increasing i j hil hjl hij
    · intro s hs hk
      obtain ⟨j, m, hj, hm, hseen⟩ := hmember hs
      obtain ⟨t, ht, hlink⟩ := hseen.link hk
      obtain ⟨i, a, hij, ha, hpath⟩ :=
        ho.links j m hm (classifyEntry_hardLink.mp (by rw [hseen.kind, hk]))
      obtain ⟨q, hq, hseenq⟩ := hslot ha
      exact ⟨t, ht, q, List.mem_of_getElem? hq, (lt_iff_pathLt hsorted hq hj).mp hij,
        by rw [← hseenq.path, hpath, hlink]⟩
  · rintro ⟨hincr, hlinks⟩
    have hpath : ∀ {i j : Nat} {a b : TarMember}, ms[i]? = some a → ms[j]? = some b → i < j →
        PathLt (joinComponents (rawComponents a.path)) (joinComponents (rawComponents b.path)) := by
      intro i j a b ha hb hij
      obtain ⟨s, hs, hseen⟩ := hslot ha
      obtain ⟨s', hs', hseen'⟩ := hslot hb
      rw [hseen.path, hseen'.path]
      exact hincr s (List.mem_of_getElem? hs) s' (List.mem_of_getElem? hs') ((lt_iff_pathLt hsorted hs hs').mp hij)
    refine ⟨?_, ?_, ?_⟩
    · rw [List.pairwise_iff_getElem]
      intro i j hi hj hij
      exact hpath (List.getElem?_eq_getElem hi) (List.getElem?_eq_getElem hj) hij
    · -- an ancestor that came later would sort after what lies below it
      intro i j a b ha hb hbelow
      have hlt := pathLt_of_below (nil_not_mem_rawComponents _) hbelow
      rcases Nat.lt_trichotomy i j with hij | rfl | hij
      · exact hij
      · rw [ha] at hb
        cases hb
        exact absurd hlt (PathLt.irrefl _)
      · exact absurd (hlt.trans (hpath hb ha hij)) (PathLt.irrefl _)
    · intro j b hb htype
      obtain ⟨s, hs, hseen⟩ := hslot hb
      have hk : s.kind plan = .hardLink := by rw [← hseen.kind, classifyEntry_hardLink.mpr htype]
      obtain ⟨t, ht, q, hq, hlt, hname⟩ := hlinks s (List.mem_of_getElem? hs) hk
      obtain ⟨t', ht', hlink⟩ := hseen.link hk
      rw [ht] at ht'
      cases ht'
      obtain ⟨i, a, hi, ha, hseena⟩ := hmember hq
      exact ⟨i, a, (lt_iff_pathLt hsorted hi hs).mpr hlt, ha, by rw [hseena.path, hname, hlink]⟩

/-- What survives at a path, or is injected there, has a slot. -/
theorem slot_of_overlay (h : buildPlan request.limits (request.decoded ops) = .ok plan) {p : Bytes} {s : Nat × Nat}
    (hs : overlay (request.decoded ops) (components p) = some s) : ∃ slot ∈ slots request plan, slot.path = p := by
  obtain ⟨e, he, _⟩ := entry_of_overlay h hs
  by_cases hp : p ∈ request.injected ops
  · exact ⟨.injected p, (mem_slots_iff h).mpr (Or.inl ⟨p, hp, rfl⟩), rfl⟩
  · exact ⟨.entry p e, (mem_slots_iff h).mpr (Or.inr ⟨p, e, rfl, he, hp⟩), rfl⟩

/-- A member before `p` is read under the name `t`: the one planned at `t` if it keeps its name, or one that is lent
it. -/
theorem named_before_iff (h : buildPlan request.limits (request.decoded ops) = .ok plan) {p t : Bytes} {s : Nat × Nat}
    (ht : overlay (request.decoded ops) (components t) = some s) :
    (∃ q ∈ slots request plan, PathLt q.path p ∧ shownPath ops request plan q = components t) ↔
      (PathLt t p ∧ ¬Moved ops request t) ∨ Lent ops request t p := by
  constructor
  · rintro ⟨q, hq, hlt, hname⟩
    have hseat : Seat ops request q.path (components t) := (seat_iff h).mpr ⟨q, hq, rfl, hname⟩
    by_cases hqt : q.path = t
    · rw [hqt] at hlt
      refine Or.inl ⟨hlt, fun ⟨name, hmoved, hne⟩ => hne ?_⟩
      obtain ⟨q', hq', hpath', rfl⟩ := (seat_iff h).mp hmoved
      rw [slots_path_inj hq' hq (hpath'.trans hqt.symm), hname]
    · exact Or.inr ⟨q.path, hseat, hqt, hlt⟩
  · rintro (⟨hlt, hmoved⟩ | ⟨q, hseat, _, hlt⟩)
    · obtain ⟨q, hq, rfl⟩ := slot_of_overlay h ht
      refine ⟨q, hq, hlt, ?_⟩
      by_contra hne
      exact hmoved ⟨_, (seat_iff h).mpr ⟨q, hq, rfl, rfl⟩, hne⟩
    · obtain ⟨s, hs, rfl, hname⟩ := (seat_iff h).mp hseat
      exact ⟨s, hs, hlt, hname⟩

/-- A link that is emitted as it stands has something at its target. -/
theorem overlay_of_unrepaired (h : buildPlan request.limits (request.decoded ops) = .ok plan) {p t : Bytes} {k i : Nat}
    {it : TarItem} (hl : LinksTo ops request p k i it t) (hn : ∀ k o size, ¬Repaired ops request p k o size) :
    ∃ s, overlay (request.decoded ops) (components t) = some s := by
  obtain ⟨e, he, rfl, rfl, hold⟩ := entry_of_survives h hl.survives
  obtain ⟨hk, ht⟩ := hold.linksTo.mpr hl
  have hr : repairOf plan.entries e = none := by
    cases hr : repairOf plan.entries e with
    | none => rfl
    | some r => exact absurd ((repairOf_iff h).mp ⟨e, he, hr⟩) (hn _ _ _)
  obtain ⟨t', w, ht', hw, _⟩ := buildPlan_intact h he hk hr
  rw [ht] at ht'
  cases ht'
  obtain ⟨itw, hold'⟩ := holding_of_entry h hw
  exact ⟨_, hold'.survives.1⟩

/-- The link that others are re-pointed at survives, and sorts before them. -/
theorem relinked_target {p t : Bytes} (hr : Relinked ops request p t) :
    PathLt t p ∧ ∃ s, overlay (request.decoded ops) (components t) = some s := by
  obtain ⟨k, o, size, hrep, ⟨⟨size', i, it, t', source, hl, _⟩, hleast⟩, hne, _⟩ := hr
  exact ⟨PathLt.of_isLE (hleast p size hrep) hne, _, hl.survives.1⟩

/-- **The order of the output** is one that a single pass can extract exactly when the request keeps it so. -/
theorem mergeLayers_order_iff (laws : ops.Lawful) {merged : Merged} (h : mergeLayers ops request = .ok merged) :
    ExtractionOrder (merged.members ops) ↔ OrderKept ops request := by
  obtain ⟨plan, hplan, hall⟩ := mergeLayers_members laws h
  rw [extractionOrder_slots hall]
  constructor
  · rintro ⟨hincr, hlinks⟩
    refine ⟨?_, ?_, ?_⟩
    · intro p name p' name' hp hp' hlt _
      obtain ⟨s, hs, rfl, rfl⟩ := (seat_iff hplan).mp hp
      obtain ⟨s', hs', rfl, rfl⟩ := (seat_iff hplan).mp hp'
      exact hincr s hs s' hs' hlt
    · intro p k i it t hl hp hn
      obtain ⟨e, he, rfl, rfl, hold⟩ := entry_of_survives hplan hl.survives
      obtain ⟨hk, ht⟩ := hold.linksTo.mpr hl
      have hmode := (mode_none_iff hplan he).mpr hn
      obtain ⟨t', ht', hbefore⟩ := hlinks (.entry p e) ((mem_slots_iff hplan).mpr (Or.inr ⟨p, e, rfl, he, hp⟩))
        (by simp only [Slot.kind, hmode, hk])
      simp only [Slot.link, hmode, ht, Option.some.injEq] at ht'
      subst ht'
      obtain ⟨s, hs⟩ := overlay_of_unrepaired hplan hl hn
      exact (named_before_iff hplan hs).mp hbefore
    · intro p t hr hp
      obtain ⟨_, _, _, ⟨_, _, _, _, hl, _⟩, _⟩ := id hr
      obtain ⟨e, he, rfl, rfl, hold⟩ := entry_of_survives hplan hl.survives
      obtain ⟨hk, _⟩ := hold.linksTo.mpr hl
      have hmode := (mode_relink_iff hplan he).mpr hr
      obtain ⟨t', ht', hbefore⟩ := hlinks (.entry p e) ((mem_slots_iff hplan).mpr (Or.inr ⟨p, e, rfl, he, hp⟩))
        (by simp only [Slot.kind, hmode, hk])
      simp only [Slot.link, hmode, Option.some.injEq] at ht'
      subst ht'
      obtain ⟨_, s, hs⟩ := relinked_target hr
      exact ((named_before_iff hplan hs).mp hbefore).imp_left fun h => h.2
  · intro hkept
    constructor
    · intro s hs s' hs' hlt
      by_cases hname : shownPath ops request plan s = components s.path ∧
          shownPath ops request plan s' = components s'.path
      · rwa [hname.1, hname.2, joinComponents_components (path_ne_nil hplan hs),
          joinComponents_components (path_ne_nil hplan hs')]
      · rw [not_and_or] at hname
        exact hkept.moved s.path _ s'.path _ ((seat_iff hplan).mpr ⟨s, hs, rfl, rfl⟩)
          ((seat_iff hplan).mpr ⟨s', hs', rfl, rfl⟩) hlt hname
    · intro s hs hk
      rcases (mem_slots_iff hplan).mp hs with ⟨q, _, rfl⟩ | ⟨p, e, rfl, he, hp⟩
      · cases hk
      obtain ⟨it, hold⟩ := holding_of_entry hplan he
      cases hmode : plan.overrides[p]? with
      | none =>
        simp only [Slot.kind, hmode] at hk
        have hn := (mode_none_iff hplan he).mp hmode
        obtain ⟨source, _, hentry⟩ := hold.entryOf
        obtain ⟨t, ht, _⟩ := hentry.link_components hk
        have hl := hold.linksTo.mp ⟨hk, ht⟩
        obtain ⟨s, hs⟩ := overlay_of_unrepaired hplan hl hn
        exact ⟨t, by simp only [Slot.link, hmode, ht],
          (named_before_iff hplan hs).mpr (hkept.links p _ _ it t hl hp hn)⟩
      | some mode =>
        cases mode with
        | relink t =>
          have hr := (mode_relink_iff hplan he).mp hmode
          obtain ⟨hlt, s, hs⟩ := relinked_target hr
          exact ⟨t, by simp only [Slot.link, hmode],
            (named_before_iff hplan hs).mpr ((hkept.relinks p t hr hp).imp_left fun h => ⟨hlt, h⟩)⟩
        | promote o size => simp [Slot.kind, hmode] at hk

end order

theorem mergeLayers_order_shadowedLinks : ∃ merged, mergeLayers Ustar.ops shadowedLinks = .ok merged ∧
    (ExtractionOrder (merged.members Ustar.ops) ↔ OrderKept Ustar.ops shadowedLinks) := by
  obtain ⟨merged, h⟩ := Res.exists_ok (x := mergeLayers Ustar.ops shadowedLinks) (by decide +kernel)
  exact ⟨merged, h, mergeLayers_order_iff Ustar.lawful h⟩

/-- A hard link whose path sorts before that of its target. -/
def linkBeforeTarget : MergeRequest := sampleRequest
  [Ustar.layer "l0" [Ustar.member "b" .regular "" [1], Ustar.member "a" .link "b" []]] none

/-- The link comes first in the output. -/
theorem linkBeforeTarget_not_ordered : ∃ merged, mergeLayers Ustar.ops linkBeforeTarget = .ok merged ∧
    ¬ExtractionOrder (merged.members Ustar.ops) := by
  obtain ⟨merged, h, hfirst⟩ := Res.exists_ok_any (x := mergeLayers Ustar.ops linkBeforeTarget) (p := fun m =>
    (m.members Ustar.ops)[0]?.any fun a => a.entryType = .link) (by decide +kernel)
  obtain ⟨a, ha, hlink⟩ := (Option.any_eq_true _ _).mp hfirst
  refine ⟨merged, h, fun ho => ?_⟩
  obtain ⟨i, _, hi, _⟩ := ho.links 0 a ha (of_decide_eq_true hlink)
  exact absurd hi (Nat.not_lt_zero i)

end Firestone.Oci
