import Firestone.Oci.Survivors
import Firestone.Oci.Ustar

/-!
# The merged stream read back

The output of a merge, decoded by the module's own reader, should hold one member for each planned one, with its path,
its kind and its payload, and end in two zero blocks (`ExactStream`). A re-pointed hard link keeps the size its header
had while its payload is left out, so one that carried data takes the bytes of the following members for its own; and a
repaired member can show another path than the planned one when the records that are dropped hid it.
`mergeLayers_exact_iff` says that nothing else goes wrong.
-/

namespace Firestone.Oci

open Firestone.Lib

/-! ## The property -/

section ops

variable (ops : HeaderOps) (request : MergeRequest)

/-- Every planned member, once, in the order of paths: the injected ones, and the entries that none of these shadows. -/
def InPlan (plan : MergePlan) (ss : List Slot) : Prop :=
  (ss.Pairwise fun a b => PathLt a.path b.path) ∧
    ∀ s, s ∈ ss ↔ (∃ p ∈ injectedPaths request plan.entries, s = .injected p) ∨
      ∃ p e, s = .entry p e ∧ plan.entries[p]? = some e ∧ p ∉ injectedPaths request plan.entries

/-- The planned path, kind and payload. -/
def Slot.planned (plan : MergePlan) (s : Slot) : List Bytes × MergedKind × Bytes :=
  (components s.path, s.kind plan, s.payload ops request plan)

/-- The path, the kind and the payload of a member that was read. -/
def TarItem.seen (it : TarItem) : List Bytes × MergedKind × Bytes :=
  (rawComponents it.member.path, classifyEntry it.member.entryType, it.payload)

/-- What the sizing rule charges for the members that were read. -/
def unpackedTotal (items : List TarItem) : Nat :=
  (items.map fun it => unpackedSize none (classifyEntry it.member.entryType) it.payload.length).sum

/-- The stream decodes to the planned members and two zero blocks, and the summary counts them. -/
def ExactStream (merged : Merged) : Prop :=
  ∃ plan ss, buildPlan request.limits (request.decoded ops) = .ok plan ∧ InPlan request plan ss ∧
    let d := decodeAt ops "merged" 0 ⟨merged.bytes, false⟩
    d.failure = none ∧ d.items.map TarItem.seen = ss.map (Slot.planned ops request plan) ∧
      d.trailingBytes = 512 ∧ d.rest = ⟨zeros 512, false⟩ ∧ merged.summary.entriesWritten = d.items.length ∧
      (unpackedTotal d.items < 2 ^ 64 → merged.summary.unpackedBytes = unpackedTotal d.items)

/-! ## The condition -/

/-- No re-pointed hard link carries data in its layer. -/
def RelinksEmpty : Prop :=
  ∀ p t k i it, Relinked ops request p t → p ∉ request.injected ops → Survives ops request p k i it →
    it.member.dataSize = 0

/-- The extension headers that a repair keeps name the member as all of them did, and the text of an injected path has
its components. -/
structure NamesKept : Prop where
  relinked : ∀ p t k i it, Relinked ops request p t → p ∉ request.injected ops → Survives ops request p k i it →
    rawComponents (it.member.repairedPath ops false) = components p
  promoted : ∀ p k o size i it, Promoted ops request p k o size → p ∉ request.injected ops →
    Survives ops request p k i it → rawComponents (it.member.repairedPath ops true) = components p
  injected : ∀ p ∈ request.injected ops, rawComponents (bytes (fromUtf8Lossy p)) = components p

/-! ## Decoding what was emitted -/

variable {ops request} {plan : MergePlan}

/-- A zero block ends a stream. -/
theorem decodeAt_zeroBlock {b : Block} (hb : b.isZero = true) (label : String) (n : Nat) (rest : Bytes) :
    decodeAt ops label n ⟨b.1 ++ rest, false⟩ = ⟨[], 512, ⟨rest, false⟩, none⟩ := by
  have hread : readMember ops label n ⟨b.1 ++ rest, false⟩ = .ok (none, ⟨rest, false⟩) := by
    rw [readMember, readMemberFrom, Stream.readBlock_append label b]
    show (if b.isZero = true then _ else _) = _
    rw [if_pos hb]
    rfl
  rw [decodeAt_eq, hread]
  simp [b.2]

theorem zeros_add (m n : Nat) : zeros (m + n) = zeros m ++ zeros n := by
  simp only [zeros, List.replicate_append_replicate]

theorem decodeAt_zeros (label : String) (n : Nat) :
    decodeAt ops label n ⟨zeros 1024, false⟩ = ⟨[], 512, ⟨zeros 512, false⟩, none⟩ := by
  have hzero : Block.isZero ⟨zeros 512, length_zeros 512⟩ = true := by
    simp only [Block.isZero, zeros, List.all_replicate]
    rfl
  have hsplit : zeros 1024 = zeros 512 ++ zeros 512 := zeros_add 512 512
  rw [hsplit]
  exact decodeAt_zeroBlock hzero label n _

/-- A member whose payload is as long as its header says is read, and what follows it is decoded as it stands. -/
theorem decodeAt_framed {s : Slot} {em : Emission} {n : Nat} {m : TarMember} (hm : Shown ops request plan s em n m)
    (hsize : m.dataSize = em.payload.length) (label : String) (k : Nat) (rest : Bytes) :
    ∃ headerBytes, decodeAt ops label k ⟨em.bytes ++ rest, false⟩ =
      (decodeAt ops label (k + 1) ⟨rest, false⟩).cons ⟨{ m with ordinal := k }, em.payload, headerBytes⟩ := by
  have hread := readMember_emission hm.sound hm.header hm.extensions label k rest false
  have hpay := Stream.readExactPadded_append label em.payload rest false
  refine ⟨(em.bytes ++ rest).length -
    (em.payload ++ zeros (paddingFor em.payload.length) ++ rest).length, ?_⟩
  rw [decodeAt_eq, hread]
  simp only [hsize, hpay]

/-- A member without payload whose header says otherwise is not read as it was planned. -/
theorem decodeAt_unframed {s : Slot} {em : Emission} {n : Nat} {m : TarMember} (hm : Shown ops request plan s em n m)
    (hsize : m.dataSize ≠ 0) (label : String) (k : Nat) (rest : Bytes)
    (hfail : (decodeAt ops label k ⟨em.bytes ++ rest, false⟩).failure = none) :
    ∃ it its, (decodeAt ops label k ⟨em.bytes ++ rest, false⟩).items = it :: its ∧ it.payload ≠ [] := by
  have hread := readMember_emission hm.sound hm.header hm.extensions label k rest false
  rw [decodeAt_eq, hread] at hfail ⊢
  simp only at hfail ⊢
  split at hfail
  · cases hfail
  · rename_i payload s' hpay
    obtain ⟨hlen, _, _⟩ := Stream.readExactPadded_ok hpay
    refine ⟨_, _, rfl, fun hnil => ?_⟩
    simp only at hnil
    rw [hnil] at hlen
    exact hsize hlen.symm

variable (ops request plan) in
/-- The slot is read as it was planned. -/
def Slot.Kept (s : Slot) : Prop :=
  shownPath ops request plan s = components s.path ∧
    ((∃ t, ∃ p e, s = .entry p e ∧ plan.overrides[p]? = some (.relink t)) → s.size ops request plan = 0)

/-- A stream decodes to its planned members exactly when each of them is read as planned. -/
theorem decode_iff {limits : MergeLimits} (laws : ops.Lawful)
    (h : buildPlan limits (request.decoded ops) = .ok plan) (label : String) : ∀ {ss : List Slot}
    {out : List (Emission × Nat)}, List.Forall₂ (fun s x => Emits ops request plan s x.1 x.2) ss out →
    (∀ s ∈ ss, s ∈ slots request plan) → ∀ k,
    ((decodeAt ops label k ⟨(out.map (·.1)).flatMap Emission.bytes ++ zeros 1024, false⟩).failure = none ∧
      (decodeAt ops label k ⟨(out.map (·.1)).flatMap Emission.bytes ++ zeros 1024, false⟩).items.map TarItem.seen =
        ss.map (Slot.planned ops request plan) ↔ ∀ s ∈ ss, s.Kept ops request plan) ∧
    ((∀ s ∈ ss, s.Kept ops request plan) →
      (decodeAt ops label k ⟨(out.map (·.1)).flatMap Emission.bytes ++ zeros 1024, false⟩).trailingBytes = 512 ∧
      (decodeAt ops label k ⟨(out.map (·.1)).flatMap Emission.bytes ++ zeros 1024, false⟩).rest = ⟨zeros 512, false⟩) := by
  intro ss out hall
  induction hall with
  | nil =>
    intro _ k
    simp only [List.map_nil, List.flatMap_nil, List.nil_append]
    rw [decodeAt_zeros]
    simp
  | @cons s x ss out hx hall ih =>
    intro hmem k
    obtain ⟨em, n⟩ := x
    obtain ⟨m, hm⟩ := Emits.shown laws h (hmem s List.mem_cons_self) hx
    have hbytes : (((em, n) :: out).map (·.1)).flatMap Emission.bytes ++ zeros 1024 =
        em.bytes ++ ((out.map (·.1)).flatMap Emission.bytes ++ zeros 1024) := by
      simp
    rw [hbytes]
    by_cases hsize : m.dataSize = em.payload.length
    · obtain ⟨hb, hd⟩ := decodeAt_framed hm hsize label k ((out.map (·.1)).flatMap Emission.bytes ++ zeros 1024)
      obtain ⟨ihiff, ihrest⟩ := ih (fun s' h' => hmem s' (List.mem_cons_of_mem _ h')) (k + 1)
      have hseen : TarItem.seen ⟨{ m with ordinal := k }, em.payload, hb⟩ = s.planned ops request plan ↔
          s.Kept ops request plan := by
        simp only [TarItem.seen, Slot.planned, hm.path, hm.kind, ← hm.payload, Prod.mk.injEq, and_true, Slot.Kept]
        refine ⟨fun hp => ⟨hp, fun hrelink => ?_⟩, fun hk => hk.1⟩
        obtain ⟨t, p, e, rfl, hmode⟩ := hrelink
        rw [← hm.size, hsize, hm.payload]
        simp [Slot.payload, hmode]
      rw [hd]
      simp only [Decoded.cons, List.map_cons, List.cons.injEq, List.forall_mem_cons, hseen]
      refine ⟨⟨?_, ?_⟩, fun hk => ihrest hk.2⟩
      · rintro ⟨hf, hs, hr⟩
        exact ⟨hs, ihiff.mp ⟨hf, hr⟩⟩
      · rintro ⟨hs, hr⟩
        exact ⟨(ihiff.mpr hr).1, hs, (ihiff.mpr hr).2⟩
    · -- only a re-pointed link can be out of step with its payload
      obtain ⟨t, p, e, hs, hmode⟩ : ∃ t, ∃ p e, s = .entry p e ∧ plan.overrides[p]? = some (.relink t) :=
        hm.framed.resolve_right hsize
      have hempty : em.payload = [] := by
        rw [hm.payload, hs]
        simp [Slot.payload, hmode]
      have hne : m.dataSize ≠ 0 := by
        rw [hempty] at hsize
        exact hsize
      have hnot : ¬s.Kept ops request plan := fun hk => hne (by rw [hm.size]; exact hk.2 ⟨t, p, e, hs, hmode⟩)
      refine ⟨⟨?_, fun hk => absurd (hk s List.mem_cons_self) hnot⟩, fun hk => absurd (hk s List.mem_cons_self) hnot⟩
      rintro ⟨hfail, hitems⟩
      obtain ⟨it, its, heq, hpay⟩ := decodeAt_unframed hm hne label k _ hfail
      rw [heq, List.map_cons, List.map_cons, List.cons.injEq] at hitems
      have hthird := congrArg (fun v => v.2.2) hitems.1
      simp only [TarItem.seen, Slot.planned, ← hm.payload, hempty] at hthird
      exact absurd hthird hpay

/-- What the members add to the unpacked size is charged by their planned kinds and payloads. -/
theorem counts_eq {limits : MergeLimits} (laws : ops.Lawful) (h : buildPlan limits (request.decoded ops) = .ok plan)
    {ss : List Slot} {out : List (Emission × Nat)}
    (hall : List.Forall₂ (fun s x => Emits ops request plan s x.1 x.2) ss out) (hmem : ∀ s ∈ ss, s ∈ slots request plan) :
    out.map (·.2) = ss.map fun s => unpackedSize none (s.kind plan) (s.payload ops request plan).length := by
  induction hall with
  | nil => rfl
  | cons hx _ ih =>
    obtain ⟨m, hm⟩ := Emits.shown laws h (hmem _ List.mem_cons_self) hx
    rw [List.map_cons, List.map_cons, ih fun s' h' => hmem s' (List.mem_cons_of_mem _ h'), hm.counted]

/-! ## The condition on the request -/

theorem slots_inPlan (h : buildPlan request.limits (request.decoded ops) = .ok plan) :
    InPlan request plan (slots request plan) := by
  refine ⟨slots_sorted request plan, fun s => ?_⟩
  rw [mem_slots_iff h, injectedPaths_eq h]

/-- Two lists in the order of paths with the same members are one. -/
theorem InPlan.unique {ss ss' : List Slot} (h : InPlan request plan ss) (h' : InPlan request plan ss') : ss = ss' := by
  have hnodup : ∀ {l : List Slot}, (l.Pairwise fun a b => PathLt a.path b.path) → l.Nodup := by
    intro l hl
    refine hl.imp ?_
    rintro a b hlt rfl
    exact PathLt.irrefl _ hlt
  have hperm : ss.Perm ss' := (List.perm_ext_iff_of_nodup (hnodup h.1) (hnodup h'.1)).mpr fun s => by
    rw [h.2 s, h'.2 s]
  refine hperm.eq_of_pairwise (fun a b _ _ hab hba => ?_) h.1 h'.1
  exact absurd (PathLt.trans hab hba) (PathLt.irrefl _)

/-- The slots of a plan are read as planned exactly when the request meets the condition. -/
theorem kept_iff (h : buildPlan request.limits (request.decoded ops) = .ok plan) :
    (∀ s ∈ slots request plan, s.Kept ops request plan) ↔ RelinksEmpty ops request ∧ NamesKept ops request := by
  constructor
  · intro hk
    have hentry : ∀ {p k i it}, Survives ops request p k i it → p ∉ request.injected ops →
        ∃ e, plan.entries[p]? = some e ∧ e.layer = k ∧ e.ordinal = i ∧ (Slot.entry p e).Kept ops request plan := by
      intro p k i it hs hp
      obtain ⟨e, he, rfl, rfl, _⟩ := entry_of_survives h hs
      exact ⟨e, he, rfl, rfl, hk _ ((mem_slots_iff h).mpr (Or.inr ⟨p, e, rfl, he, hp⟩))⟩
    refine ⟨fun p t k i it hr hp hs => ?_, fun p t k i it hr hp hs => ?_, fun p k o size i it hr hp hs => ?_,
      fun p hp => ?_⟩
    · obtain ⟨e, he, rfl, rfl, hkept⟩ := hentry hs hp
      have hmode := (mode_relink_iff h he).mpr hr
      have hsize := hkept.2 ⟨t, p, e, rfl, hmode⟩
      simpa [Slot.size, hmode, hs.2] using hsize
    · obtain ⟨e, he, rfl, rfl, hkept⟩ := hentry hs hp
      have hmode := (mode_relink_iff h he).mpr hr
      have hpath := hkept.1
      simpa [shownPath, hmode, hs.2, Slot.path] using hpath
    · obtain ⟨e, he, rfl, rfl, hkept⟩ := hentry hs hp
      have hmode := (mode_promote_iff h he).mpr hr
      have hpath := hkept.1
      simpa [shownPath, hmode, hs.2, Slot.path] using hpath
    · exact (hk _ ((mem_slots_iff h).mpr (Or.inl ⟨p, hp, rfl⟩))).1
  · rintro ⟨hempty, hnames⟩ s hs
    rcases (mem_slots_iff h).mp hs with ⟨p, hp, rfl⟩ | ⟨p, e, rfl, he, hp⟩
    · refine ⟨hnames.injected p hp, ?_⟩
      rintro ⟨t, q, e, hq, _⟩
      cases hq
    · obtain ⟨it, hold⟩ := holding_of_entry h he
      have hit := hold.survives.2
      cases hmode : plan.overrides[p]? with
      | none =>
        refine ⟨by simp [shownPath, hit, hmode, hold.path, Slot.path], ?_⟩
        rintro ⟨t, q, e', hq, hm⟩
        cases hq
        rw [hmode] at hm
        cases hm
      | some mode =>
        cases mode with
        | relink t =>
          have hr := (mode_relink_iff h he).mp hmode
          refine ⟨?_, fun _ => ?_⟩
          · simpa [shownPath, hit, hmode, Slot.path] using hnames.relinked p t _ _ it hr hp hold.survives
          · simpa [Slot.size, hmode, hit] using hempty p t _ _ it hr hp hold.survives
        | promote o size =>
          have hr := (mode_promote_iff h he).mp hmode
          refine ⟨?_, ?_⟩
          · simpa [shownPath, hit, hmode, Slot.path] using hnames.promoted p _ o size _ it hr hp hold.survives
          · rintro ⟨t, q, e', hq, hm⟩
            cases hq
            rw [hmode] at hm
            cases hm

/-- **The merged stream.** It decodes to exactly the planned members, with a summary that counts them, when no re-pointed
hard link carries data and every repaired or injected member keeps its name; and only then. -/
theorem mergeLayers_exact_iff (laws : ops.Lawful) {merged : Merged} (h : mergeLayers ops request = .ok merged) :
    ExactStream ops request merged ↔ RelinksEmpty ops request ∧ NamesKept ops request := by
  obtain ⟨plan, out, hplan, hall, hem, hsummary⟩ := mergeLayers_ok h
  obtain ⟨hiff, hend⟩ := decode_iff laws hplan "merged" hall (fun s hs => hs) 0
  rw [← kept_iff hplan]
  unfold ExactStream Merged.bytes
  rw [hem]
  constructor
  · rintro ⟨plan', ss, hplan', hss, hfail, hitems, _⟩
    rw [hplan] at hplan'
    cases hplan'
    rw [hss.unique (slots_inPlan hplan)] at hitems
    exact hiff.mp ⟨hfail, hitems⟩
  · intro hk
    obtain ⟨hfail, hitems⟩ := hiff.mpr hk
    obtain ⟨htrail, hrest⟩ := hend hk
    refine ⟨plan, slots request plan, hplan, slots_inPlan hplan, hfail, hitems, htrail, hrest, ?_, fun hlt => ?_⟩
    · have hlen := congrArg List.length hitems
      rw [List.length_map, List.length_map, hall.length_eq] at hlen
      rw [hsummary, hlen]
    · have htotal : unpackedTotal (decodeAt ops "merged" 0
          ⟨(out.map (·.1)).flatMap Emission.bytes ++ zeros 1024, false⟩).items = (out.map (·.2)).sum := by
        rw [counts_eq laws hplan hall fun s hs => hs]
        have hsizes := congrArg (fun l => (l.map fun v => unpackedSize none v.2.1 v.2.2.length).sum) hitems
        simp only [List.map_map] at hsizes
        exact hsizes
      rw [htotal] at hlt ⊢
      rw [hsummary]
      show min _ _ = _
      omega

end ops

/-- A request with small limits and an empty configuration. -/
def sampleRequest (layers : List LayerSource) (init : Option { b : Bytes // b.length < 2 ^ 63 }) : MergeRequest :=
  ⟨layers, ⟨[], [], [], none, none⟩, ⟨100000, 100⟩, init⟩

/-- Two hard links to a file that the upper layer removes: the first is promoted, the second re-pointed at it. -/
def shadowedLinks : MergeRequest := sampleRequest
  [Ustar.layer "l0" [Ustar.member "bin" .directory "" [], Ustar.member "bin/f" .regular "" [1, 2, 3],
      Ustar.member "bin/g" .link "bin/f" [], Ustar.member "bin/h" .link "bin/f" []],
    Ustar.layer "l1" [Ustar.member "bin/.wh.f" .regular "" []]]
  (some ⟨[7], by decide⟩)

theorem mergeLayers_exact_shadowedLinks : ∃ merged, mergeLayers Ustar.ops shadowedLinks = .ok merged ∧
    merged.summary.entriesWritten = 5 ∧ merged.summary.unpackedBytes = 4096 + 3 + 4096 + 1 ∧
    (ExactStream Ustar.ops shadowedLinks merged ↔
      RelinksEmpty Ustar.ops shadowedLinks ∧ NamesKept Ustar.ops shadowedLinks) := by
  obtain ⟨merged, h, hcounts⟩ := Res.exists_ok_any (x := mergeLayers Ustar.ops shadowedLinks) (p := fun m =>
    m.summary.entriesWritten = 5 ∧ m.summary.unpackedBytes = 4096 + 3 + 4096 + 1) (by decide +kernel)
  obtain ⟨hwritten, hunpacked⟩ := of_decide_eq_true hcounts
  exact ⟨merged, h, hwritten, hunpacked, mergeLayers_exact_iff Ustar.lawful h⟩

/-- The second link carries 1025 bytes in its layer. -/
def heavyLink : MergeRequest := sampleRequest
  [Ustar.layer "l0" [Ustar.member "f" .regular "" [1, 2, 3], Ustar.member "g" .link "f" [],
      Ustar.member "h" .link "f" (zeros 1025)],
    Ustar.layer "l1" [Ustar.member ".wh.f" .regular "" []]]
  none

/-- Its header still says so after it was re-pointed, and the stream ends inside a payload that is not there. -/
theorem heavyLink_not_exact : ∃ merged, mergeLayers Ustar.ops heavyLink = .ok merged ∧
    ¬ExactStream Ustar.ops heavyLink merged := by
  obtain ⟨merged, h, hfail⟩ := Res.exists_ok_any (x := mergeLayers Ustar.ops heavyLink) (p := fun m =>
    (decodeAt Ustar.ops "merged" 0 ⟨m.bytes, false⟩).failure.isSome) (by decide +kernel)
  refine ⟨merged, h, ?_⟩
  rintro ⟨plan, ss, _, _, hnone, _⟩
  rw [hnone] at hfail
  cases hfail

end Firestone.Oci
