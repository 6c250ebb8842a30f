import Firestone.Oci.Shape

/-!
# The contents behind hard links

The reference: the layers are extracted one after another into an empty file system (`extract`). A member takes the place
of what its path held, together with everything below it when it is not a directory; a whiteout or an opaque marker
removes what lower layers left; a hard link shares the inode of what its target names at that moment, and the extraction
fails when that is nothing or a directory. Paths are taken as the merge takes them, without following symlinks.

Pass two follows the links of the last survivors only. `mergeLayers_contents` says when a reader of the output gets,
at every path that survives as a file or a hard link, the bytes that the extraction leaves there.
-/

namespace Firestone.Oci

open Firestone.Lib

/-! ## Extracting layers -/

/-- What a path holds: the member that placed it, the member that made its inode, and the type of that. -/
structure Node where
  placed : Nat × Nat
  inode : Nat × Nat
  type : EntryType
  deriving DecidableEq

abbrev FileSystem := List Bytes → Option Node

namespace FileSystem

/-- Removes what the layers below `k` left at the paths. -/
def withoutLower (fs : FileSystem) (k : Nat) (doomed : List Bytes → Prop) [DecidablePred doomed] : FileSystem := fun q =>
  (fs q).filter fun n => ¬(doomed q ∧ n.placed.1 < k)

/-- Makes room for a member: its path, and everything below it when it is not a directory. -/
def cleared (fs : FileSystem) (m : Member) : FileSystem := fun q =>
  if q = rawComponents m.path ∨ (m.entryType ≠ .directory ∧ StrictlyBelow (rawComponents m.path) q) then none else fs q

def place (fs : FileSystem) (p : List Bytes) (n : Node) : FileSystem := fun q => if q = p then some n else fs q

end FileSystem

/-- Extracts member `i` of layer `k`. -/
def extractMember (k i : Nat) (m : Member) (fs : FileSystem) : Option FileSystem :=
  match markOf (rawComponents m.path) with
  | .root => some fs
  | .opq dir => some (fs.withoutLower k fun q => StrictlyBelow dir q)
  | .whiteout target => some (fs.withoutLower k fun q => q = target ∨ StrictlyBelow target q)
  | .ordinary =>
    let room := fs.cleared m
    if m.entryType = .link then
      (room (rawComponents (m.link.getD []))).bind fun n =>
        if n.type = .directory then none else some (room.place (rawComponents m.path) ⟨(k, i), n.inode, n.type⟩)
    else some (room.place (rawComponents m.path) ⟨(k, i), (k, i), m.entryType⟩)

/-- Extracts the members of layer `k` from number `i` on. -/
def extractMembers (k : Nat) : Nat → List Member → FileSystem → Option FileSystem
  | _, [], fs => some fs
  | i, m :: ms, fs => (extractMember k i m fs).bind (extractMembers k (i + 1) ms)

/-- Extracts the layers from number `k` on. -/
def extractLayers : Nat → List DecodedLayer → FileSystem → Option FileSystem
  | _, [], fs => some fs
  | k, source :: sources, fs => (extractMembers k 0 source.members fs).bind (extractLayers (k + 1) sources)

/-- Extracts the layers one after another into an empty file system. -/
def extract (layers : List DecodedLayer) : Option FileSystem := extractLayers 0 layers fun _ => none

/-! ## The extraction and the overlay -/

/-- A node is made by the member that placed it, unless that is a hard link. -/
def Node.MadeFrom (n : Node) (m : Member) : Prop := m.entryType ≠ .link → n.inode = n.placed ∧ n.type = m.entryType

/-- What the extraction leaves at a path is what the reference overlay leaves there. -/
def Extracted (layers : List DecodedLayer) (S : Survivors) (fs : FileSystem) : Prop :=
  ∀ q n, fs q = some n → S q = some n.placed ∧
    ∃ source m, layers[n.placed.1]? = some source ∧ source.members[n.placed.2]? = some m ∧ n.MadeFrom m

section Steps

variable {k i : Nat} {m : Member} {fs fs' : FileSystem} {q : List Bytes} {n : Node}

theorem FileSystem.withoutLower_some {doomed : List Bytes → Prop} [DecidablePred doomed]
    (h : fs.withoutLower k doomed q = some n) : fs q = some n ∧ ¬(doomed q ∧ n.placed.1 < k) := by
  unfold FileSystem.withoutLower at h
  obtain ⟨hn, hcond⟩ := Option.filter_eq_some_iff.mp h
  exact ⟨hn, of_decide_eq_true hcond⟩

theorem FileSystem.cleared_some (h : fs.cleared m q = some n) : fs q = some n ∧ q ≠ rawComponents m.path ∧
    ¬(m.entryType ≠ .directory ∧ StrictlyBelow (rawComponents m.path) q) := by
  unfold FileSystem.cleared at h
  split at h
  · cases h
  · rename_i hnot
    exact ⟨h, fun he => hnot (Or.inl he), fun hb => hnot (Or.inr hb)⟩

/-- After a member a path holds what it held, unless the member removes it, or what the member placed there. -/
theorem extractMember_some (h : extractMember k i m fs = some fs') (hn : fs' q = some n) :
    (m.Adds q ∧ n.placed = (k, i) ∧ n.MadeFrom m) ∨
      (¬m.Adds q ∧ fs q = some n ∧ ¬(m.Deletes q ∧ n.placed.1 < k)) := by
  unfold extractMember at h
  cases hmark : markOf (rawComponents m.path) with
  | root =>
    rw [hmark] at h
    cases h
    exact Or.inr ⟨fun ha => absurd ha.1 (by simp [hmark]), hn, fun hd => by simp [Member.Deletes, hmark] at hd⟩
  | opq dir =>
    rw [hmark] at h
    cases h
    obtain ⟨hn, hkeep⟩ := FileSystem.withoutLower_some hn
    exact Or.inr ⟨fun ha => absurd ha.1 (by simp [hmark]), hn, by simpa [Member.Deletes, hmark] using hkeep⟩
  | whiteout target =>
    rw [hmark] at h
    cases h
    obtain ⟨hn, hkeep⟩ := FileSystem.withoutLower_some hn
    exact Or.inr ⟨fun ha => absurd ha.1 (by simp [hmark]), hn, by simpa [Member.Deletes, hmark] using hkeep⟩
  | ordinary =>
    rw [hmark] at h
    simp only at h
    -- both ways of placing the member leave the rest of the room as it was
    have hplace : ∀ node : Node, node.placed = (k, i) → node.MadeFrom m →
        (fs.cleared m).place (rawComponents m.path) node = fs' → (m.Adds q ∧ n.placed = (k, i) ∧ n.MadeFrom m) ∨
          (¬m.Adds q ∧ fs q = some n ∧ ¬(m.Deletes q ∧ n.placed.1 < k)) := by
      rintro node hplaced hmade rfl
      unfold FileSystem.place at hn
      split at hn
      · rename_i hq
        cases hn
        exact Or.inl ⟨⟨hmark, hq.symm⟩, hplaced, hmade⟩
      · obtain ⟨hn, hne, hbelow⟩ := FileSystem.cleared_some hn
        refine Or.inr ⟨fun ha => hne ha.2.symm, hn, fun hd => hbelow ?_⟩
        have hdel := hd.1
        unfold Member.Deletes at hdel
        rw [hmark] at hdel
        exact hdel
    split at h
    · rename_i hlink
      obtain ⟨target, _, h⟩ := Option.bind_eq_some_iff.mp h
      split at h
      · cases h
      · exact hplace _ rfl (fun hne => absurd hlink hne) (Option.some.inj h)
    · exact hplace _ rfl (fun _ => ⟨rfl, rfl⟩) (Option.some.inj h)

end Steps

section Runs

variable {layers : List DecodedLayer} {k : Nat}

/-- Extracting one more member keeps the correspondence. -/
theorem Extracted.step {lower : Survivors} (hlow : LowerThan k lower) {source : DecodedLayer}
    (hs : layers[k]? = some source) {done : List Member} {m : Member} (hm : source.members[done.length]? = some m)
    {fs fs' : FileSystem} (hr : Extracted layers (overlayLayer k done lower) fs)
    (h : extractMember k done.length m fs = some fs') : Extracted layers (overlayLayer k (done ++ [m]) lower) fs' := by
  intro q n hn
  rw [overlayLayer_append hlow]
  rcases extractMember_some h hn with ⟨ha, hplaced, hmade⟩ | ⟨ha, hold, hkeep⟩
  · rw [if_pos ha, hplaced]
    exact ⟨rfl, source, m, hs, hm, hmade⟩
  · obtain ⟨hover, hfrom⟩ := hr q n hold
    rw [if_neg ha, if_neg]
    · exact ⟨hover, hfrom⟩
    · rintro ⟨hd, s, hs', hlt⟩
      rw [hover] at hs'
      cases hs'
      exact hkeep ⟨hd, hlt⟩

/-- Extracting the rest of a layer keeps the correspondence. -/
theorem Extracted.members {lower : Survivors} (hlow : LowerThan k lower) {source : DecodedLayer}
    (hs : layers[k]? = some source) : ∀ {rest done : List Member} {fs fs' : FileSystem},
    source.members = done ++ rest → Extracted layers (overlayLayer k done lower) fs →
    extractMembers k done.length rest fs = some fs' → Extracted layers (overlayLayer k source.members lower) fs' := by
  intro rest
  induction rest with
  | nil =>
    intro done fs fs' hsplit hr h
    rw [List.append_nil] at hsplit
    cases h
    rw [hsplit]
    exact hr
  | cons m rest ih =>
    intro done fs fs' hsplit hr h
    obtain ⟨fs₁, h₁, h⟩ := Option.bind_eq_some_iff.mp h
    have hm : source.members[done.length]? = some m := by rw [hsplit]; simp
    refine @ih (done ++ [m]) fs₁ fs' (by rw [hsplit]; simp) (hr.step hlow hs hm h₁) ?_
    rw [List.length_append]
    exact h

/-- Extracting further layers keeps the correspondence. -/
theorem Extracted.run : ∀ {sources : List DecodedLayer} {k : Nat} {S : Survivors} {fs fs' : FileSystem},
    (∀ j, sources[j]? = layers[k + j]?) → LowerThan k S → Extracted layers S fs →
    extractLayers k sources fs = some fs' → Extracted layers (overlayFrom k sources S) fs' := by
  intro sources
  induction sources with
  | nil =>
    intro k S fs fs' _ _ hr h
    cases h
    exact hr
  | cons source sources ih =>
    intro k S fs fs' hget hlow hr h
    obtain ⟨fs₁, h₁, h⟩ := Option.bind_eq_some_iff.mp h
    have hs : layers[k]? = some source := (hget 0).symm
    have h0 : Extracted layers (overlayLayer k [] S) fs := by
      intro q n hn
      simpa [overlayLayer, lastAdds] using hr q n hn
    refine ih (fun j => ?_) (overlayLayer_lowerThan hlow _) (h0.members hlow hs rfl h₁) h
    have := hget (j + 1)
    rw [List.getElem?_cons_succ] at this
    rw [this]
    congr 1
    omega

/-- What a whole extraction leaves at a path is what the overlay leaves there. -/
theorem extract_extracted {fs : FileSystem} (h : extract layers = some fs) : Extracted layers (overlay layers) fs := by
  refine Extracted.run (fun j => by rw [Nat.zero_add]) (fun _ _ h => (by cases h)) ?_ h
  intro q n hn
  cases hn

end Runs

/-! ## Reading through hard links -/

/-- The bytes a reader of the members gets at a path, following hard links to a regular file. -/
inductive Reads (items : List TarItem) : List Bytes → Bytes → Prop
  | file {it : TarItem} : it ∈ items → classifyEntry it.member.entryType = .regular →
    Reads items (rawComponents it.member.path) it.payload
  | link {it : TarItem} {b : Bytes} : it ∈ items → it.member.entryType = .link →
    Reads items (rawComponents (it.member.link.getD [])) b → Reads items (rawComponents it.member.path) b

/-- The members of the output, as the module's own reader decodes its bytes. -/
def Merged.items (ops : HeaderOps) (merged : Merged) : List TarItem := (decodeAt ops "merged" 0 ⟨merged.bytes, false⟩).items

section ops

variable (ops : HeaderOps) (request : MergeRequest)

/-- The bytes that an extraction leaves at a path: those of the regular file whose inode it holds. -/
def contentAt (fs : FileSystem) (p : Bytes) : Option Bytes :=
  (fs (components p)).bind fun n =>
    if classifyEntry n.type = .regular then (request.item ops n.inode.1 n.inode.2).map (·.payload) else none

/-- Every path that survives as a regular file or a hard link is read from the output with the bytes that the extraction
leaves there. -/
def ContentsKept (fs : FileSystem) (merged : Merged) : Prop :=
  ∀ p k i it, Survives ops request p k i it → p ∉ request.injected ops →
    classifyEntry it.member.entryType = .regular ∨ it.member.entryType = .link →
    ∀ b, Reads (merged.items ops) (components p) b ↔ contentAt ops request fs p = some b

/-! ## The condition -/

/-- The payload of an injected member. -/
def MergeRequest.injectedPayload (q : Bytes) : Bytes :=
  if q = resolveThrough (symlinkAt ops request) firestoneInitPath then request.initBinary else []

/-- The bytes a link finds at its target in the end: those of the injected member there, or what the extraction leaves. -/
def finalContent (fs : FileSystem) (t : Bytes) : Option Bytes :=
  if t ∈ request.injected ops then some (request.injectedPayload ops t) else contentAt ops request fs t

/-- A hard link of the output, emitted as it stands or re-pointed, and its target. -/
def Points (p t : Bytes) : Prop :=
  p ∉ request.injected ops ∧
    ((∃ k i it, LinksTo ops request p k i it t ∧ ∀ k o size, ¬Repaired ops request p k o size) ∨ Relinked ops request p t)

/-- What looking at the last survivors does not see to: no regular file is removed by a member above it later in its own
layer, a promoted link carries the bytes it was linked to, a link that stays finds the same bytes at its target in the
end, and the links from a path with contents do not go round in a circle. -/
structure LinksFaithful (fs : FileSystem) : Prop where
  files : ∀ p k i it, Survives ops request p k i it → p ∉ request.injected ops →
    classifyEntry it.member.entryType = .regular → (fs (components p)).isSome = true
  promoted : ∀ p k o size src, Promoted ops request p k o size → p ∉ request.injected ops →
    request.item ops k o = some src → contentAt ops request fs p = some src.payload
  links : ∀ p t, Points ops request p t → contentAt ops request fs p = finalContent ops request fs t
  ends : ∀ p, p ∉ request.injected ops → (contentAt ops request fs p).isSome = true →
    ∃ q, Relation.ReflTransGen (Points ops request) p q ∧ ∀ t, ¬Points ops request q t

variable {ops request} {plan : MergePlan}

/-! ## Decoding the output -/

variable (ops request plan) in
/-- A reader sees the slot as this member, with its payload. -/
structure Slot.ReadAs (s : Slot) (it : TarItem) : Prop where
  path : rawComponents it.member.path = components s.path
  kind : classifyEntry it.member.entryType = s.kind plan
  link : s.kind plan = .hardLink → ∃ t, s.link plan = some t ∧ rawComponents (it.member.link.getD []) = components t
  payload : it.payload = s.payload ops request plan

/-- Slots that are all kept are read one by one. -/
theorem decodeAt_slots {limits : MergeLimits} (laws : ops.Lawful)
    (h : buildPlan limits (request.decoded ops) = .ok plan) (label : String) {ss : List Slot}
    {out : List (Emission × Nat)} (hall : List.Forall₂ (fun s x => Emits ops request plan s x.1 x.2) ss out) :
    (∀ s ∈ ss, s ∈ slots request plan) → (∀ s ∈ ss, s.Kept ops request plan) → ∀ k,
    List.Forall₂ (Slot.ReadAs ops request plan) ss
      (decodeAt ops label k ⟨(out.map (·.1)).flatMap Emission.bytes ++ zeros 1024, false⟩).items := by
  induction hall with
  | nil =>
    intro _ _ k
    simp only [List.map_nil, List.flatMap_nil, List.nil_append]
    rw [decodeAt_zeros]
    exact .nil
  | @cons s x ss out hx _ ih =>
    intro hmem hkept k
    obtain ⟨em, n⟩ := x
    obtain ⟨m, hm⟩ := Emits.shown laws h (hmem s List.mem_cons_self) hx
    have hk := hkept s List.mem_cons_self
    -- a re-pointed link that is kept has no payload and says so
    have hsize : m.dataSize = em.payload.length := by
      rcases hm.framed with ⟨t, p, e, rfl, hmode⟩ | hsize
      · rw [hm.size, hk.2 ⟨t, p, e, rfl, hmode⟩, hm.payload]
        simp [Slot.payload, hmode]
      · exact hsize
    have hbytes : (((em, n) :: out).map (·.1)).flatMap Emission.bytes ++ zeros 1024 =
        em.bytes ++ ((out.map (·.1)).flatMap Emission.bytes ++ zeros 1024) := by
      simp
    rw [hbytes]
    obtain ⟨hb, hd⟩ := decodeAt_framed hm hsize label k ((out.map (·.1)).flatMap Emission.bytes ++ zeros 1024)
    rw [hd]
    refine .cons ⟨?_, hm.kind, hm.link, hm.payload⟩
      (ih (fun s' h' => hmem s' (List.mem_cons_of_mem _ h')) (fun s' h' => hkept s' (List.mem_cons_of_mem _ h')) _)
    exact hm.path.trans hk.1

/-- The items of an output whose slots are all kept. -/
theorem mergeLayers_items (laws : ops.Lawful) {merged : Merged} (h : mergeLayers ops request = .ok merged)
    (hempty : RelinksEmpty ops request) (hnames : NamesKept ops request) :
    ∃ plan, buildPlan request.limits (request.decoded ops) = .ok plan ∧
      List.Forall₂ (Slot.ReadAs ops request plan) (slots request plan) (merged.items ops) := by
  obtain ⟨plan, out, hplan, hall, hem, _⟩ := mergeLayers_ok h
  refine ⟨plan, hplan, ?_⟩
  unfold Merged.items Merged.bytes
  rw [hem]
  exact decodeAt_slots laws hplan "merged" hall (fun s hs => hs) ((kept_iff hplan).mpr ⟨hempty, hnames⟩) 0

/-- Reading at the path of a slot: the payload of a file, or what the target of a link reads as. -/
theorem reads_slot_iff {items : List TarItem}
    (hall : List.Forall₂ (Slot.ReadAs ops request plan) (slots request plan) items) {s : Slot}
    (hs : s ∈ slots request plan) {b : Bytes} : Reads items (components s.path) b ↔
      (s.kind plan = .regular ∧ b = s.payload ops request plan) ∨
        (s.kind plan = .hardLink ∧ ∃ t, s.link plan = some t ∧ Reads items (components t) b) := by
  have hslot : ∀ {it : TarItem}, it ∈ items → rawComponents it.member.path = components s.path →
      s.ReadAs ops request plan it := by
    intro it hit hpath
    obtain ⟨s', hs', hread⟩ := forall₂_mem_right hall hit
    have heq := slots_path_inj hs' hs (components_inj (hread.path.symm.trans hpath))
    rw [← heq]
    exact hread
  constructor
  · intro hr
    generalize hname : components s.path = name at hr
    cases hr with
    | @file it hit hk =>
      have hread := hslot hit hname.symm
      exact Or.inl ⟨by rw [← hread.kind, hk], hread.payload⟩
    | @link it _ hit hk hr =>
      have hread := hslot hit hname.symm
      have hkind : s.kind plan = .hardLink := by rw [← hread.kind, classifyEntry_hardLink.mpr hk]
      obtain ⟨t, ht, hlink⟩ := hread.link hkind
      rw [hlink] at hr
      exact Or.inr ⟨hkind, t, ht, hr⟩
  · obtain ⟨it, hit, hread⟩ := forall₂_mem_left hall hs
    rw [← hread.path]
    rintro (⟨hk, rfl⟩ | ⟨hk, t, ht, hr⟩)
    · rw [← hread.payload]
      exact .file hit (by rw [hread.kind, hk])
    · refine .link hit (classifyEntry_hardLink.mp (by rw [hread.kind, hk])) ?_
      obtain ⟨t', ht', hlink⟩ := hread.link hk
      rw [ht] at ht'
      cases ht'
      rw [hlink]
      exact hr

/-! ## The output and the layers -/

section Merge

variable {items : List TarItem}

theorem reads_injected (h : buildPlan request.limits (request.decoded ops) = .ok plan)
    (hall : List.Forall₂ (Slot.ReadAs ops request plan) (slots request plan) items) {q b : Bytes}
    (hq : q ∈ request.injected ops) : Reads items (components q) b ↔ b = request.injectedPayload ops q := by
  have hs : Slot.injected q ∈ slots request plan := (mem_slots_iff h).mpr (Or.inl ⟨q, hq, rfl⟩)
  have hr := reads_slot_iff hall hs (b := b)
  simpa [Slot.kind, Slot.payload, resolveInjectionPath, symlinkIn_eq h, MergeRequest.injectedPayload, Slot.path] using hr

/-- A member that is not a hard link is read as it stands. -/
theorem reads_plain (h : buildPlan request.limits (request.decoded ops) = .ok plan)
    (hall : List.Forall₂ (Slot.ReadAs ops request plan) (slots request plan) items) {p : Bytes} {k i : Nat} {it : TarItem}
    (hs : Survives ops request p k i it) (hp : p ∉ request.injected ops) (hlink : it.member.entryType ≠ .link) {b : Bytes} :
    Reads items (components p) b ↔ classifyEntry it.member.entryType = .regular ∧ b = it.payload := by
  obtain ⟨e, he, rfl, rfl, hold⟩ := entry_of_survives h hs
  have hmode : plan.overrides[p]? = none := by
    refine (mode_none_iff h he).mpr fun k o size hrep => ?_
    obtain ⟨_, it', _, _, hl, _⟩ := hrep
    have heq := hl.survives.1.symm.trans hs.1
    cases heq
    obtain rfl : it' = it := Option.some.inj (hl.survives.2.symm.trans hs.2)
    exact hlink hl.link
  have hne : classifyEntry it.member.entryType ≠ .hardLink := fun hc => hlink (classifyEntry_hardLink.mp hc)
  have hr := reads_slot_iff hall ((mem_slots_iff h).mpr (Or.inr ⟨p, e, rfl, he, hp⟩)) (b := b)
  simpa [Slot.kind, Slot.payload, hmode, hold.kind, hs.2, hne, Slot.path] using hr

/-- A promoted link is read as the content it is promoted with. -/
theorem reads_promoted (h : buildPlan request.limits (request.decoded ops) = .ok plan)
    (hall : List.Forall₂ (Slot.ReadAs ops request plan) (slots request plan) items) {p : Bytes} {k o size : Nat}
    {src : TarItem} (hr : Promoted ops request p k o size) (hp : p ∉ request.injected ops)
    (hsrc : request.item ops k o = some src) {b : Bytes} : Reads items (components p) b ↔ b = src.payload := by
  obtain ⟨⟨i, it, t, source, hl, _⟩, _⟩ := id hr
  obtain ⟨e, he, rfl, rfl, hold⟩ := entry_of_survives h hl.survives
  have hmode := (mode_promote_iff h he).mpr hr
  have hr := reads_slot_iff hall ((mem_slots_iff h).mpr (Or.inr ⟨p, e, rfl, he, hp⟩)) (b := b)
  simpa [Slot.kind, Slot.payload, hmode, hsrc, Slot.path] using hr

/-- A link that stays has a slot with its target. -/
theorem Points.slot (h : buildPlan request.limits (request.decoded ops) = .ok plan) {p t : Bytes}
    (hpt : Points ops request p t) :
    ∃ s ∈ slots request plan, s.path = p ∧ s.kind plan = .hardLink ∧ s.link plan = some t := by
  obtain ⟨hp, ⟨k, i, it, hl, hn⟩ | hr⟩ := hpt
  · obtain ⟨e, he, rfl, rfl, hold⟩ := entry_of_survives h hl.survives
    obtain ⟨hk, ht⟩ := hold.linksTo.mpr hl
    have hmode := (mode_none_iff h he).mpr hn
    exact ⟨_, (mem_slots_iff h).mpr (Or.inr ⟨p, e, rfl, he, hp⟩), rfl, by simp [Slot.kind, hmode, hk],
      by simp [Slot.link, hmode, ht]⟩
  · obtain ⟨_, _, _, ⟨_, _, _, _, hl, _⟩, _⟩ := id hr
    obtain ⟨e, he, rfl, rfl, hold⟩ := entry_of_survives h hl.survives
    obtain ⟨hk, _⟩ := hold.linksTo.mpr hl
    have hmode := (mode_relink_iff h he).mpr hr
    exact ⟨_, (mem_slots_iff h).mpr (Or.inr ⟨p, e, rfl, he, hp⟩), rfl, by simp [Slot.kind, hmode, hk],
      by simp [Slot.link, hmode]⟩

/-- A link that stays is read as its target. -/
theorem reads_points (h : buildPlan request.limits (request.decoded ops) = .ok plan)
    (hall : List.Forall₂ (Slot.ReadAs ops request plan) (slots request plan) items) {p t : Bytes}
    (hpt : Points ops request p t) {b : Bytes} : Reads items (components p) b ↔ Reads items (components t) b := by
  obtain ⟨s, hs, rfl, hk, ht⟩ := hpt.slot h
  rw [reads_slot_iff hall hs, hk, ht]
  simp

/-- What holds of a path that is read without a link, and of a link when it holds of its target, holds of every path that
is read. -/
theorem reads_induction (h : buildPlan request.limits (request.decoded ops) = .ok plan)
    (hall : List.Forall₂ (Slot.ReadAs ops request plan) (slots request plan) items) {motive : Bytes → Bytes → Prop}
    (hbase : ∀ p b, Reads items (components p) b → (∀ t, ¬Points ops request p t) → motive p b)
    (hstep : ∀ p t b, Points ops request p t → Reads items (components t) b → motive t b → motive p b) {p b : Bytes}
    (hr : Reads items (components p) b) : motive p b := by
  have hslot : ∀ {p t : Bytes} {it : TarItem}, Points ops request p t → it ∈ items →
      rawComponents it.member.path = components p →
      it.member.entryType = .link ∧ rawComponents (it.member.link.getD []) = components t := by
    intro p t it hpt hit hpath
    obtain ⟨s, hs, rfl, hk, ht⟩ := hpt.slot h
    obtain ⟨s', hs', hread⟩ := forall₂_mem_right hall hit
    obtain rfl := slots_path_inj hs' hs (components_inj (hread.path.symm.trans hpath))
    obtain ⟨t', ht', hlink⟩ := hread.link hk
    rw [ht] at ht'
    cases ht'
    exact ⟨classifyEntry_hardLink.mp (by rw [hread.kind, hk]), hlink⟩
  generalize hname : components p = name at hr
  induction hr generalizing p with
  | @file it hit hk =>
    refine hbase p _ (by rw [hname]; exact .file hit hk) fun t hpt => ?_
    rw [(hslot hpt hit hname.symm).1] at hk
    cases hk
  | @link it b hit hk hr ih =>
    by_cases hex : ∃ t, Points ops request p t
    · obtain ⟨t, hpt⟩ := hex
      have htarget := (hslot hpt hit hname.symm).2
      exact hstep p t b hpt (by rw [← htarget]; exact hr) (ih htarget.symm)
    · exact hbase p b (by rw [hname]; exact .link hit hk hr) fun t hpt => hex ⟨t, hpt⟩

/-- A link that stays survives, and so does what it points at. -/
theorem Points.survives (h : buildPlan request.limits (request.decoded ops) = .ok plan) {p t : Bytes}
    (hpt : Points ops request p t) : (∃ k i it, Survives ops request p k i it ∧ it.member.entryType = .link) ∧
      ∃ k i it, Survives ops request t k i it := by
  have htarget : ∀ s, overlay (request.decoded ops) (components t) = some s → ∃ k i it, Survives ops request t k i it := by
    rintro ⟨k, i⟩ hs
    obtain ⟨e, he, rfl, rfl⟩ := entry_of_overlay h hs
    obtain ⟨it, hold⟩ := holding_of_entry h he
    exact ⟨_, _, it, hold.survives⟩
  obtain ⟨_, ⟨k, i, it, hl, hn⟩ | hr⟩ := hpt
  · obtain ⟨s, hs⟩ := overlay_of_unrepaired h hl hn
    exact ⟨⟨k, i, it, hl.survives, hl.link⟩, htarget s hs⟩
  · obtain ⟨_, s, hs⟩ := relinked_target hr
    obtain ⟨_, _, _, ⟨i, it, _, _, hl, _⟩, _⟩ := hr
    exact ⟨⟨_, i, it, hl.survives, hl.link⟩, htarget s hs⟩

/-- How a surviving hard link is emitted. -/
theorem link_cases (h : buildPlan request.limits (request.decoded ops) = .ok plan) {p : Bytes} {k i : Nat} {it : TarItem}
    (hs : Survives ops request p k i it) (hp : p ∉ request.injected ops) (hlink : it.member.entryType = .link) :
    (∃ t, Points ops request p t) ∨
      ∃ o size src, Promoted ops request p k o size ∧ request.item ops k o = some src := by
  obtain ⟨e, he, rfl, rfl, hold⟩ := entry_of_survives h hs
  cases hmode : plan.overrides[p]? with
  | none =>
    have hk : e.kind = .hardLink := by rw [hold.kind, classifyEntry_hardLink.mpr hlink]
    obtain ⟨source, _, hentry⟩ := hold.entryOf
    obtain ⟨t, ht, _⟩ := hentry.link_components hk
    exact Or.inl ⟨t, hp, Or.inl ⟨_, _, it, hold.linksTo.mp ⟨hk, ht⟩, (mode_none_iff h he).mp hmode⟩⟩
  | some mode =>
    cases mode with
    | relink t => exact Or.inl ⟨t, hp, Or.inr ((mode_relink_iff h he).mp hmode)⟩
    | promote o size =>
      obtain ⟨src, hsrc⟩ := promote_source h he hmode
      exact Or.inr ⟨o, size, src, (mode_promote_iff h he).mp hmode, hsrc⟩

/-! ## Contents -/

variable {fs : FileSystem}

/-- A member that is not a hard link has its own inode, if it is still there. -/
theorem node_plain (hx : extract (request.decoded ops) = some fs) {p : Bytes} {k i : Nat} {it : TarItem}
    (hs : Survives ops request p k i it) (hlink : it.member.entryType ≠ .link) {n : Node}
    (hn : fs (components p) = some n) : n.inode = (k, i) ∧ n.type = it.member.entryType := by
  obtain ⟨hover, source, m, hsource, hm, hmade⟩ := extract_extracted hx _ _ hn
  rw [hs.1] at hover
  have hplaced := Option.some.inj hover
  rw [← hplaced] at hsource hm
  obtain ⟨it', hit', rfl⟩ := MergeRequest.item_of_member hsource hm
  obtain rfl : it' = it := Option.some.inj (hit'.symm.trans hs.2)
  obtain ⟨hinode, htype⟩ := hmade hlink
  exact ⟨hinode.trans hplaced.symm, htype⟩

/-- The contents of a member that is not a hard link. -/
theorem contentAt_plain (hx : extract (request.decoded ops) = some fs) {p : Bytes} {k i : Nat} {it : TarItem}
    (hs : Survives ops request p k i it) (hlink : it.member.entryType ≠ .link) {b : Bytes} :
    contentAt ops request fs p = some b ↔
      (fs (components p)).isSome = true ∧ classifyEntry it.member.entryType = .regular ∧ b = it.payload := by
  cases hn : fs (components p) with
  | none => simp [contentAt, hn]
  | some n =>
    obtain ⟨hinode, htype⟩ := node_plain hx hs hlink hn
    simp [contentAt, hn, hinode, htype, hs.2, eq_comm]

/-- A path with contents survives. -/
theorem survives_of_content (h : buildPlan request.limits (request.decoded ops) = .ok plan)
    (hx : extract (request.decoded ops) = some fs) {p b : Bytes} (hc : contentAt ops request fs p = some b) :
    ∃ k i it, Survives ops request p k i it := by
  obtain ⟨n, hn, _⟩ := Option.bind_eq_some_iff.mp hc
  obtain ⟨hover, _⟩ := extract_extracted hx _ _ hn
  obtain ⟨e, he, _⟩ := entry_of_overlay h hover
  obtain ⟨it, hold⟩ := holding_of_entry h he
  exact ⟨_, _, it, hold.survives⟩

theorem finalContent_injected {t : Bytes} (ht : t ∈ request.injected ops) :
    finalContent ops request fs t = some (request.injectedPayload ops t) := if_pos ht

theorem finalContent_kept {t : Bytes} (ht : t ∉ request.injected ops) :
    finalContent ops request fs t = contentAt ops request fs t := if_neg ht

/-- Faithful links are read as what the extraction leaves at their path. -/
theorem content_of_reads (h : buildPlan request.limits (request.decoded ops) = .ok plan)
    (hall : List.Forall₂ (Slot.ReadAs ops request plan) (slots request plan) items)
    (hx : extract (request.decoded ops) = some fs) (hf : LinksFaithful ops request fs) {p b : Bytes}
    (hr : Reads items (components p) b) (hp : p ∉ request.injected ops) (hs : ∃ k i it, Survives ops request p k i it) :
    contentAt ops request fs p = some b := by
  refine reads_induction h hall (motive := fun p b => p ∉ request.injected ops →
    (∃ k i it, Survives ops request p k i it) → contentAt ops request fs p = some b) ?_ ?_ hr hp hs
  · rintro p b hr hend hp ⟨k, i, it, hs⟩
    by_cases hlink : it.member.entryType = .link
    · rcases link_cases h hs hp hlink with ⟨t, hpt⟩ | ⟨o, size, src, hpro, hsrc⟩
      · exact absurd hpt (hend t)
      · rw [(reads_promoted h hall hpro hp hsrc).mp hr]
        exact hf.promoted p k o size src hpro hp hsrc
    · obtain ⟨hk, rfl⟩ := (reads_plain h hall hs hp hlink).mp hr
      exact (contentAt_plain hx hs hlink).mpr ⟨hf.files p k i it hs hp hk, hk, rfl⟩
  · intro p t b hpt hr ih _ _
    rw [hf.links p t hpt]
    by_cases ht : t ∈ request.injected ops
    · rw [finalContent_injected ht, (reads_injected h hall ht).mp hr]
    · rw [finalContent_kept ht]
      exact ih ht (hpt.survives h).2

/-- What the extraction leaves at the path of faithful links is read there. -/
theorem reads_of_content (h : buildPlan request.limits (request.decoded ops) = .ok plan)
    (hall : List.Forall₂ (Slot.ReadAs ops request plan) (slots request plan) items)
    (hx : extract (request.decoded ops) = some fs) (hf : LinksFaithful ops request fs) {p b : Bytes}
    (hp : p ∉ request.injected ops) (hc : contentAt ops request fs p = some b) : Reads items (components p) b := by
  obtain ⟨q, hchain, hend⟩ := hf.ends p hp (by rw [hc]; rfl)
  -- along the links, from the one that ends them
  induction hchain using Relation.ReflTransGen.head_induction_on with
  | refl =>
    obtain ⟨k, i, it, hs⟩ := survives_of_content h hx hc
    by_cases hlink : it.member.entryType = .link
    · rcases link_cases h hs hp hlink with ⟨t, hpt⟩ | ⟨o, size, src, hpro, hsrc⟩
      · exact absurd hpt (hend t)
      · rw [hf.promoted q k o size src hpro hp hsrc] at hc
        exact (reads_promoted h hall hpro hp hsrc).mpr (Option.some.inj hc).symm
    · obtain ⟨_, hk, rfl⟩ := (contentAt_plain hx hs hlink).mp hc
      exact (reads_plain h hall hs hp hlink).mpr ⟨hk, rfl⟩
  | @head p t hpt _ ih =>
    rw [reads_points h hall hpt]
    rw [hf.links p t hpt] at hc
    by_cases ht : t ∈ request.injected ops
    · rw [finalContent_injected ht] at hc
      exact (reads_injected h hall ht).mpr (Option.some.inj hc).symm
    · rw [finalContent_kept ht] at hc
      exact ih ht hc

/-- A path that is read has links that end. -/
theorem ends_of_reads (h : buildPlan request.limits (request.decoded ops) = .ok plan)
    (hall : List.Forall₂ (Slot.ReadAs ops request plan) (slots request plan) items) {p b : Bytes}
    (hr : Reads items (components p) b) :
    ∃ q, Relation.ReflTransGen (Points ops request) p q ∧ ∀ t, ¬Points ops request q t := by
  refine reads_induction h hall (motive := fun p _ => ∃ q, Relation.ReflTransGen (Points ops request) p q ∧
    ∀ t, ¬Points ops request q t) ?_ ?_ hr
  · intro p _ _ hend
    exact ⟨p, .refl, hend⟩
  · rintro p t _ hpt _ ⟨q, hchain, hend⟩
    exact ⟨q, .head hpt hchain, hend⟩

/-- A stream that is read as planned gives every path that survives as a file or a hard link the bytes that the extraction
leaves there exactly when the links are faithful. -/
theorem contentsKept_iff (laws : ops.Lawful) {merged : Merged} (h : mergeLayers ops request = .ok merged)
    (hx : extract (request.decoded ops) = some fs) (hempty : RelinksEmpty ops request) (hnames : NamesKept ops request) :
    ContentsKept ops request fs merged ↔ LinksFaithful ops request fs := by
  obtain ⟨plan, hplan, hall⟩ := mergeLayers_items laws h hempty hnames
  constructor
  · intro hkept
    -- a member that is neither a file nor a link has no contents and is not read
    have hagree : ∀ p, p ∉ request.injected ops → (∃ k i it, Survives ops request p k i it) →
        ∀ b, Reads (merged.items ops) (components p) b ↔ contentAt ops request fs p = some b := by
      rintro p hp ⟨k, i, it, hs⟩ b
      by_cases hk : classifyEntry it.member.entryType = .regular ∨ it.member.entryType = .link
      · exact hkept p k i it hs hp hk b
      · rw [not_or] at hk
        rw [reads_plain hplan hall hs hp hk.2, contentAt_plain hx hs hk.2]
        simp [hk.1]
    refine ⟨?_, ?_, ?_, ?_⟩
    · intro p k i it hs hp hk
      have hlink : it.member.entryType ≠ .link := fun hl => by rw [hl] at hk; cases hk
      have hr := (reads_plain hplan hall hs hp hlink).mpr ⟨hk, rfl⟩
      exact ((contentAt_plain hx hs hlink).mp ((hkept p k i it hs hp (Or.inl hk) _).mp hr)).1
    · intro p k o size src hpro hp hsrc
      obtain ⟨⟨i, it, _, _, hl, _⟩, _⟩ := id hpro
      exact (hkept p k i it hl.survives hp (Or.inr hl.link) _).mp ((reads_promoted hplan hall hpro hp hsrc).mpr rfl)
    · intro p t hpt
      obtain ⟨⟨k, i, it, hs, _⟩, htarget⟩ := hpt.survives hplan
      refine Option.ext fun b => ?_
      rw [← hagree p hpt.1 ⟨k, i, it, hs⟩, reads_points hplan hall hpt]
      by_cases ht : t ∈ request.injected ops
      · rw [reads_injected hplan hall ht, finalContent_injected ht]
        simp [eq_comm]
      · rw [hagree t ht htarget, finalContent_kept ht]
    · intro p hp hc
      obtain ⟨b, hb⟩ := Option.isSome_iff_exists.mp hc
      exact ends_of_reads hplan hall ((hagree p hp (survives_of_content hplan hx hb) b).mpr hb)
  · intro hf p k i it hs hp _ b
    exact ⟨fun hr => content_of_reads hplan hall hx hf hr hp ⟨k, i, it, hs⟩, reads_of_content hplan hall hx hf hp⟩

/-- **The contents of the output.** Every path that survives as a file or a hard link is read with the bytes that the
extraction leaves there when the stream is read as planned and the links are faithful; in a stream that is read as
planned, only then. -/
theorem mergeLayers_contents (laws : ops.Lawful) {merged : Merged} (h : mergeLayers ops request = .ok merged)
    (hx : extract (request.decoded ops) = some fs) :
    (RelinksEmpty ops request ∧ NamesKept ops request ∧ LinksFaithful ops request fs →
      ContentsKept ops request fs merged) ∧
    (RelinksEmpty ops request ∧ NamesKept ops request ∧ ContentsKept ops request fs merged →
      LinksFaithful ops request fs) := by
  constructor
  · rintro ⟨hempty, hnames, hf⟩
    exact (contentsKept_iff laws h hx hempty hnames).mpr hf
  · rintro ⟨hempty, hnames, hkept⟩
    exact (contentsKept_iff laws h hx hempty hnames).mp hkept

end Merge

/-! ## A request that keeps its contents, and one that does not -/

instance (s : Slot) : Decidable (∃ t, ∃ p e, s = .entry p e ∧ plan.overrides[p]? = some (.relink t)) :=
  match s with
  | .injected _ => isFalse (by rintro ⟨_, _, _, h, _⟩; cases h)
  | .entry p e =>
    match h : plan.overrides[p]? with
    | some (.relink t) => isTrue ⟨t, p, e, rfl, h⟩
    | some (.promote _ _) => isFalse (by rintro ⟨_, _, _, heq, h'⟩; cases heq; rw [h] at h'; cases h')
    | none => isFalse (by rintro ⟨_, _, _, heq, h'⟩; cases heq; rw [h] at h'; cases h')

instance (s : Slot) : Decidable (s.Kept ops request plan) := inferInstanceAs (Decidable (_ ∧ (_ → _)))

end ops

theorem mergeLayers_contents_shadowedLinks : ∃ merged fs, mergeLayers Ustar.ops shadowedLinks = .ok merged ∧
    extract (shadowedLinks.decoded Ustar.ops) = some fs ∧
    (ContentsKept Ustar.ops shadowedLinks fs merged ↔ LinksFaithful Ustar.ops shadowedLinks fs) := by
  obtain ⟨merged, h⟩ := Res.exists_ok (x := mergeLayers Ustar.ops shadowedLinks) (by decide +kernel)
  have hx : (extract (shadowedLinks.decoded Ustar.ops)).isSome = true := by decide +kernel
  obtain ⟨fs, hfs⟩ := Option.isSome_iff_exists.mp hx
  obtain ⟨plan, hplan, hkept⟩ := Res.exists_ok_any
    (x := buildPlan shadowedLinks.limits (shadowedLinks.decoded Ustar.ops)) (p := fun plan =>
    ∀ s ∈ slots shadowedLinks plan, s.Kept Ustar.ops shadowedLinks plan) (by decide +kernel)
  obtain ⟨hempty, hnames⟩ := (kept_iff hplan).mp (of_decide_eq_true hkept)
  obtain ⟨henough, honly⟩ := mergeLayers_contents Ustar.lawful h hfs
  exact ⟨merged, fs, h, hfs, fun hc => honly ⟨hempty, hnames, hc⟩, fun hf => henough ⟨hempty, hnames, hf⟩⟩

/-- A link of the middle layer to a file of the lowest, which the top layer replaces. -/
def replacedTarget : MergeRequest := sampleRequest
  [Ustar.layer "l0" [Ustar.member "f" .regular "" [1]], Ustar.layer "l1" [Ustar.member "g" .link "f" []],
    Ustar.layer "l2" [Ustar.member "f" .regular "" [2]]] none

/-- The extraction leaves the old bytes at the link, and the output reads as the new ones. -/
theorem replacedTarget_not_kept : ∃ merged fs, mergeLayers Ustar.ops replacedTarget = .ok merged ∧
    extract (replacedTarget.decoded Ustar.ops) = some fs ∧ ¬ContentsKept Ustar.ops replacedTarget fs merged := by
  have hcontent : ((extract (replacedTarget.decoded Ustar.ops)).any fun fs =>
      contentAt Ustar.ops replacedTarget fs (bytes "g") = some [1]) = true := by decide +kernel
  obtain ⟨fs, hfs, hcontent⟩ := (Option.any_eq_true _ _).mp hcontent
  obtain ⟨merged, h, hmembers⟩ := Res.exists_ok_any (x := mergeLayers Ustar.ops replacedTarget) (p := fun m =>
    (∃ it ∈ m.items Ustar.ops, it.member.entryType = .link ∧ rawComponents it.member.path = components (bytes "g") ∧
      rawComponents (it.member.link.getD []) = components (bytes "f")) ∧
    ∃ it ∈ m.items Ustar.ops, classifyEntry it.member.entryType = .regular ∧
      rawComponents it.member.path = components (bytes "f") ∧ it.payload = [2]) (by decide +kernel)
  refine ⟨merged, fs, h, hfs, fun hkept => ?_⟩
  have hover : overlay (replacedTarget.decoded Ustar.ops) (components (bytes "g")) = some (1, 0) := by decide +kernel
  have hitem : ((replacedTarget.item Ustar.ops 1 0).any fun it => it.member.entryType = .link) = true := by decide +kernel
  obtain ⟨it, hit, hlink⟩ := (Option.any_eq_true _ _).mp hitem
  obtain ⟨⟨g, hg, hglink, hgpath, hgtarget⟩, f, hf, hfkind, hfpath, hfbytes⟩ := of_decide_eq_true hmembers
  have hread : Reads (merged.items Ustar.ops) (components (bytes "g")) [2] := by
    rw [← hgpath]
    refine .link hg hglink ?_
    rw [hgtarget, ← hfpath, ← hfbytes]
    exact .file hf hfkind
  have htwo := (hkept (bytes "g") 1 0 it ⟨hover, hit⟩ (by decide) (Or.inr (of_decide_eq_true hlink)) [2]).mp hread
  rw [of_decide_eq_true hcontent] at htwo
  exact absurd htwo (by decide)

end Firestone.Oci
