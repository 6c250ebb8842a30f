import Firestone.Oci.Merge
import Firestone.Oci.Plan
import Firestone.Oci.Repair

/-!
# What the merge emits

* `Emits` — the member that a slot of the plan is written as, in terms of the layers' own members.
* `mergeLayers_ok` — a merge that succeeds emits one member for each slot, in order, and its summary counts them.
* `Emits.read` — what the module's own reader makes of an emitted member: its path, type, link and size.
-/

namespace Firestone.Oci

open Firestone.Lib

/-! ## Members of the layers -/

section ops

variable (ops : HeaderOps)

/-- Member number `i` of layer `k`, with its payload. -/
def MergeRequest.item (request : MergeRequest) (k i : Nat) : Option TarItem :=
  request.layers[k]?.bind fun source => (source.contents ops k).items[i]?

variable {ops} {request : MergeRequest}

theorem MergeRequest.decoded_getElem? {k : Nat} : (request.decoded ops)[k]? = request.layers[k]?.map (·.decode ops k) := by
  simp [MergeRequest.decoded]

/-- The members of a decoded layer are what pass one sees of its items. -/
theorem MergeRequest.item_of_member {k i : Nat} {source : DecodedLayer} {m : Member}
    (hs : (request.decoded ops)[k]? = some source) (hm : source.members[i]? = some m) :
    ∃ it, request.item ops k i = some it ∧ it.view = m := by
  rw [MergeRequest.decoded_getElem?] at hs
  obtain ⟨src, hsrc, rfl⟩ := Option.map_eq_some_iff.mp hs
  simp only [LayerSource.decode, List.getElem?_map] at hm
  obtain ⟨it, hit, hview⟩ := Option.map_eq_some_iff.mp hm
  exact ⟨it, by rw [MergeRequest.item, hsrc]; exact hit, hview⟩

/-- The members of layers that decode are sound, and as long as their headers say. -/
theorem MergeRequest.item_sound (hf : ∀ source ∈ request.decoded ops, source.failure = none) {k i : Nat} {it : TarItem}
    (h : request.item ops k i = some it) : it.member.Sound ops ∧ it.payload.length = it.member.dataSize := by
  obtain ⟨src, hsrc, hit⟩ := Option.bind_eq_some_iff.mp h
  have hfail : (src.contents ops k).failure = none := by
    refine hf (src.decode ops k) (List.mem_of_getElem? (i := k) ?_)
    rw [MergeRequest.decoded_getElem?, hsrc]
    rfl
  obtain ⟨s, _, hrest⟩ := LayerSource.contents_rest hfail
  obtain ⟨hsound, _, hlen⟩ := hrest.item (k := i) (n := 0) (by rw [Nat.zero_add]; exact hit)
  exact ⟨hsound, hlen⟩

/-! ## Slots -/

theorem mem_interleave {s : Slot} : ∀ {l : List (Bytes × MergedEntry)} {injected : List Bytes},
    s ∈ interleave injected l → (∃ p ∈ injected, s = .injected p) ∨ ∃ p e, s = .entry p e ∧ (p, e) ∈ l := by
  intro l
  induction l with
  | nil =>
    intro injected h
    obtain ⟨p, hp, rfl⟩ := List.mem_map.mp h
    exact Or.inl ⟨p, hp, rfl⟩
  | cons x l ih =>
    intro injected h
    obtain ⟨path, entry⟩ := x
    simp only [interleave, List.mem_append] at h
    rcases h with (h | h) | h
    · obtain ⟨p, hp, rfl⟩ := List.mem_map.mp h
      exact Or.inl ⟨p, (List.takeWhile_sublist _).mem hp, rfl⟩
    · split at h
      · cases h
      · exact Or.inr ⟨path, entry, List.mem_singleton.mp h, List.mem_cons_self⟩
    · rcases ih h with ⟨p, hp, rfl⟩ | ⟨p, e, rfl, hm⟩
      · exact Or.inl ⟨p, List.mem_of_mem_drop hp, rfl⟩
      · exact Or.inr ⟨p, e, rfl, List.mem_cons_of_mem _ hm⟩

/-- A slot is an injected path or an entry of the plan. -/
theorem mem_slots {plan : MergePlan} {s : Slot} (h : s ∈ slots request plan) :
    (∃ p ∈ injectedPaths request plan.entries, s = .injected p) ∨ ∃ p e, s = .entry p e ∧ plan.entries[p]? = some e := by
  rcases mem_interleave h with hi | ⟨p, e, rfl, hm⟩
  · exact Or.inl hi
  · exact Or.inr ⟨p, e, rfl, Std.TreeMap.mem_toList_iff_getElem?_eq_some.mp hm⟩

/-! ## Emissions -/

variable (ops request) in
/-- The init binary, or nothing when none is injected. -/
def MergeRequest.initBinary : Bytes := (request.injectedInit.map (·.1)).getD []

variable (ops request) in
/-- How a slot is written, and what it adds to the unpacked size. -/
inductive Emits (plan : MergePlan) : Slot → Emission → Nat → Prop
  | init {path : Bytes} {h : Block} (hp : path = resolveInjectionPath plan.entries firestoneInitPath)
      (hh : injectedHeader ops path 0o755 request.initBinary.length = .ok h) :
      Emits plan (.injected path) ⟨[], h, request.initBinary⟩ request.initBinary.length
  | marker {path : Bytes} {h : Block} (hp : path ≠ resolveInjectionPath plan.entries firestoneInitPath)
      (hh : injectedHeader ops path 0o644 0 = .ok h) : Emits plan (.injected path) ⟨[], h, []⟩ 0
  | verbatim {path : Bytes} {e : MergedEntry} {it : TarItem} (hm : plan.overrides[path]? = none)
      (hit : request.item ops e.layer e.ordinal = some it) :
      Emits plan (.entry path e) ⟨it.member.extensions, it.member.header, it.payload⟩
        (unpackedSize none e.kind it.member.dataSize)
  | relink {path t : Bytes} {e : MergedEntry} {it : TarItem} {es : List ExtensionHeader} {h : Block}
      (hm : plan.overrides[path]? = some (.relink t)) (hit : request.item ops e.layer e.ordinal = some it)
      (hes : filterExtensions ops false it.member.extensions = .ok es)
      (hh : ops.setLinkNameLiteral it.member.header t = some h) :
      Emits plan (.entry path e) ⟨es, ops.setCksum h, []⟩ metadataEntryBytes
  | promote {path : Bytes} {e : MergedEntry} {o size : Nat} {it src : TarItem} {es : List ExtensionHeader} {h : Block}
      (hm : plan.overrides[path]? = some (.promote o size)) (hit : request.item ops e.layer e.ordinal = some it)
      (hes : filterExtensions ops true it.member.extensions = .ok es)
      (hh : ops.setLinkNameLiteral (ops.setSize (ops.setEntryType it.member.header .regular) size) [] = some h)
      (hsrc : request.item ops e.layer o = some src) (hsize : src.member.dataSize = size) :
      Emits plan (.entry path e) ⟨es, ops.setCksum h, src.payload⟩ size

theorem orError_ok {α : Type} {e : FirestoneError} {o : Option α} {a : α} (h : orError e o = .ok a) : o = some a := by
  cases o with
  | none => cases h
  | some b => cases h; rfl

variable {plan : MergePlan}

variable (ops request) in
/-- Every layer has a cursor that stands between two members. -/
def Standing (cursors : List Cursor) : Prop :=
  cursors.length = request.layers.length ∧
    ∀ k source, request.layers[k]? = some source → ∃ c, cursors[k]? = some c ∧ Cursor.Idle ops source k c

theorem standing_new : Standing ops request (request.layers.mapIdx fun index source => Cursor.new index source) := by
  refine ⟨by simp, fun k source hs => ⟨Cursor.new k source, by simp [hs], .closed⟩⟩

theorem Standing.set {cursors : List Cursor} (hst : Standing ops request cursors) {k : Nat} {source : LayerSource}
    {c : Cursor} (hs : request.layers[k]? = some source) (hc : Cursor.Idle ops source k c) :
    Standing ops request (cursors.set k c) := by
  refine ⟨by rw [List.length_set]; exact hst.1, fun k' source' hs' => ?_⟩
  by_cases hk : k = k'
  · subst hk
    rw [hs] at hs'
    cases hs'
    have hlt : k < cursors.length := by
      rw [hst.1]
      exact (List.getElem?_eq_some_iff.mp hs).1
    exact ⟨c, by rw [List.getElem?_set_self hlt], hc⟩
  · rw [List.getElem?_set_ne hk]
    exact hst.2 k' source' hs'

/-- The content of a promoted link is the payload of the member it names. -/
theorem promotedContent_ok (hf : ∀ source ∈ request.decoded ops, source.failure = none) {path : Bytes}
    {k o size : Nat} {src : TarItem} {payload : Bytes} (hsrc : request.item ops k o = some src)
    (h : promotedContent ops request.layers path k o size = .ok payload) :
    payload = src.payload ∧ src.member.dataSize = size := by
  obtain ⟨source, hs, hit⟩ := Option.bind_eq_some_iff.mp hsrc
  have hfail : (source.contents ops k).failure = none := by
    refine hf (source.decode ops k) (List.mem_of_getElem? (i := k) ?_)
    rw [MergeRequest.decoded_getElem?, hs]
    rfl
  obtain ⟨c', hseek, hon⟩ := Cursor.Idle.seekTo (c := Cursor.new k source) .closed hfail hit
  obtain ⟨c'', hcopy, _⟩ := hon.copyData
  unfold promotedContent at h
  simp only [hs] at h
  rw [hseek] at h
  obtain ⟨⟨target, content⟩, htarget, h⟩ := Res.bind_ok h
  cases htarget
  simp only at h
  split at h
  · cases h
  rename_i hcond
  rw [hcopy] at h
  cases h
  exact ⟨rfl, by simpa using fun hne => hcond (Or.inr hne)⟩

/-- The content a promoted entry is given is a regular file of its layer. -/
theorem promote_source {limits : MergeLimits} (h : buildPlan limits (request.decoded ops) = .ok plan) {p : Bytes}
    {e : MergedEntry} (he : plan.entries[p]? = some e) {o size : Nat}
    (hm : plan.overrides[p]? = some (.promote o size)) : ∃ src, request.item ops e.layer o = some src := by
  obtain ⟨_, _, hfrom, _⟩ := buildPlan_entryOf h
  obtain ⟨source, m, hs, hentry⟩ := hfrom p e he
  obtain ⟨_, _, _, hlocal⟩ := repairOf_some.mp (repairOf_of_promote h he hm)
  rw [hentry.localFile] at hlocal
  obtain ⟨t, _, hlast⟩ := Option.bind_eq_some_iff.mp hlocal
  obtain ⟨_, m', hget, _⟩ := lastFile_some hlast
  rw [Nat.sub_zero, List.getElem?_take] at hget
  split at hget
  · obtain ⟨src, hsrc, _⟩ := MergeRequest.item_of_member hs hget
    exact ⟨src, hsrc⟩
  · cases hget

/-- Writing an entry of the plan emits its member. -/
theorem writeEntry_ok {limits : MergeLimits} (h : buildPlan limits (request.decoded ops) = .ok plan)
    {cursors cursors' : List Cursor} (hst : Standing ops request cursors) {p : Bytes} {e : MergedEntry}
    (he : plan.entries[p]? = some e) {em : Emission} {n : Nat}
    (hw : writeEntry ops request plan cursors p e = .ok (em, n, cursors')) :
    Emits ops request plan (.entry p e) em n ∧ Standing ops request cursors' := by
  obtain ⟨hfail, _, hfrom, _⟩ := buildPlan_entryOf h
  obtain ⟨source, m, hs, hentry⟩ := hfrom p e he
  obtain ⟨it, hit, _⟩ := MergeRequest.item_of_member hs hentry.member
  obtain ⟨src, hsrc, hitem⟩ := Option.bind_eq_some_iff.mp hit
  have hok : (src.contents ops e.layer).failure = none := by
    refine hfail (src.decode ops e.layer) (List.mem_of_getElem? (i := e.layer) ?_)
    rw [MergeRequest.decoded_getElem?, hsrc]
    rfl
  obtain ⟨c, hc, hidle⟩ := hst.2 e.layer src hsrc
  obtain ⟨c₁, hseek, hon⟩ := hidle.seekTo hok hitem
  obtain ⟨c₂, hskip, hidle₂⟩ := hon.skipData
  obtain ⟨c₃, hcopy, hidle₃⟩ := hon.copyData
  unfold writeEntry at hw
  simp only [hc] at hw
  rw [hseek] at hw
  obtain ⟨⟨member, cursor⟩, hmember, hw⟩ := Res.bind_ok hw
  cases hmember
  obtain ⟨observed, _, hw⟩ := Res.bind_ok hw
  split at hw
  · cases hw
  obtain ⟨⟨em', c'⟩, hemit, hw⟩ := Res.bind_ok hw
  cases hw
  unfold emit at hemit
  cases hmode : plan.overrides[p]? with
  | none =>
    rw [hmode] at hemit
    simp only [hcopy] at hemit
    cases hemit
    exact ⟨.verbatim hmode hit, hst.set hsrc hidle₃⟩
  | some mode =>
    rw [hmode] at hemit
    cases mode with
    | relink t =>
      obtain ⟨es, hes, hemit⟩ := Res.bind_ok hemit
      obtain ⟨hd, hhd, hemit⟩ := Res.bind_ok hemit
      rw [hskip] at hemit
      cases hemit
      exact ⟨.relink hmode hit hes (orError_ok hhd), hst.set hsrc hidle₂⟩
    | promote o size =>
      obtain ⟨es, hes, hemit⟩ := Res.bind_ok hemit
      obtain ⟨hd, hhd, hemit⟩ := Res.bind_ok hemit
      rw [hskip] at hemit
      obtain ⟨_, hskipped, hemit⟩ := Res.bind_ok hemit
      cases hskipped
      obtain ⟨payload, hpay, hemit⟩ := Res.bind_ok hemit
      cases hemit
      obtain ⟨content, hcontent⟩ := promote_source h he hmode
      obtain ⟨rfl, hsize⟩ := promotedContent_ok hfail hcontent hpay
      exact ⟨.promote hmode hit hes (orError_ok hhd) hcontent hsize, hst.set hsrc hidle₂⟩

theorem writeInjected_ok {p : Bytes} {em : Emission} {n : Nat}
    (h : writeInjected ops p (resolveInjectionPath plan.entries firestoneInitPath) request.initBinary = .ok (em, n)) :
    Emits ops request plan (.injected p) em n := by
  unfold writeInjected at h
  split at h
  · rename_i hp
    obtain ⟨hd, hhd, h⟩ := Res.bind_ok h
    cases h
    exact .init hp hhd
  · rename_i hp
    obtain ⟨hd, hhd, h⟩ := Res.bind_ok h
    cases h
    exact .marker hp hhd

/-- What pass two has written after a first part of the slots. -/
structure Wrote (ops : HeaderOps) (request : MergeRequest) (plan : MergePlan) (done : List Slot) (st : Writing) :
    Prop where
  standing : Standing ops request st.cursors
  out : ∃ out : List (Emission × Nat), List.Forall₂ (fun s x => Emits ops request plan s x.1 x.2) done out ∧
    st.emissions = out.map (·.1) ∧ st.written = out.length ∧
    st.unpacked = min ((out.map (·.2)).sum) (2 ^ 64 - 1)

theorem Wrote.add {done : List Slot} {st : Writing} (hw : Wrote ops request plan done st) {s : Slot} {em : Emission}
    {n : Nat} (he : Emits ops request plan s em n) {cursors : List Cursor} (hc : Standing ops request cursors) :
    Wrote ops request plan (done ++ [s]) { st.add em n with cursors } := by
  obtain ⟨out, hout, hem, hlen, hsum⟩ := hw.out
  refine ⟨hc, out ++ [(em, n)], List.rel_append hout (.cons he .nil), ?_, ?_, ?_⟩
  · simp [Writing.add, hem]
  · simp [Writing.add, hlen]
  · simp only [Writing.add, satAdd, hsum, List.map_append, List.sum_append, List.map_cons, List.map_nil, List.sum_cons,
      List.sum_nil]
    omega

theorem Wrote.step {limits : MergeLimits} (h : buildPlan limits (request.decoded ops) = .ok plan) {done : List Slot}
    {st st' : Writing} {s : Slot} (hw : Wrote ops request plan done st) (hs : s ∈ slots request plan)
    (hstep : writeSlot ops request plan st s = .ok st') : Wrote ops request plan (done ++ [s]) st' := by
  cases s with
  | injected p =>
    obtain ⟨⟨em, n⟩, hem, hstep⟩ := Res.bind_ok hstep
    cases hstep
    exact hw.add (writeInjected_ok hem) hw.standing
  | entry p e =>
    obtain ⟨⟨em, n, cursors⟩, hem, hstep⟩ := Res.bind_ok hstep
    cases hstep
    rcases mem_slots hs with ⟨q, _, hq⟩ | ⟨q, e', hq, he⟩
    · cases hq
    · cases hq
      obtain ⟨hemits, hstanding⟩ := writeEntry_ok h hw.standing he hem
      exact hw.add hemits hstanding

/-- A merge that succeeds emits one member for each slot of its plan, and its summary counts them. -/
theorem mergeLayers_ok {merged : Merged} (h : mergeLayers ops request = .ok merged) :
    ∃ (plan : MergePlan) (out : List (Emission × Nat)), buildPlan request.limits (request.decoded ops) = .ok plan ∧
      List.Forall₂ (fun s x => Emits ops request plan s x.1 x.2) (slots request plan) out ∧
      merged.emissions = out.map (·.1) ∧
      merged.summary = ⟨out.length, plan.bytesRead, min ((out.map (·.2)).sum) (2 ^ 64 - 1), request.config⟩ := by
  obtain ⟨plan, hplan, h⟩ := Res.bind_ok h
  obtain ⟨st, hst, h⟩ := Res.bind_ok h
  cases h
  have h0 : (∀ s ∈ ([] : List Slot), s ∈ slots request plan) → Wrote ops request plan []
      ⟨request.layers.mapIdx fun index source => Cursor.new index source, [], 0, 0⟩ :=
    fun _ => ⟨standing_new, [], .nil, rfl, rfl, rfl⟩
  have hrun := foldlM_invariant
    (fun done st => (∀ s ∈ done, s ∈ slots request plan) → Wrote ops request plan done st) (by
      intro done s st st' hw hs hall
      exact (hw fun s' h' => hall s' (List.mem_append_left _ h')).step hplan (hall s (by simp)) hs) h0 hst
  obtain ⟨out, hout, hem, hlen, hsum⟩ := (hrun fun s hs => by simpa using hs).out
  exact ⟨plan, out, hplan, by simpa using hout, hem, by rw [hlen, hsum]⟩

/-! ## Reading an emitted member -/

variable (ops) in
/-- The member that the module's own reader makes of an emitted one. -/
def Emission.read (em : Emission) : Option TarMember :=
  match readMember ops "" 0 ⟨em.bytes, false⟩ with
  | .ok (m, _) => m
  | .error _ => none

variable (ops) in
/-- The path that a reader gives to a repaired member: the records that are dropped may have hidden another one. -/
def TarMember.repairedPath (promoted : Bool) (m : TarMember) : Bytes :=
  match filterExtensions ops promoted m.extensions >>= readNames ops .empty with
  | .ok names => names.path ops m.header
  | .error _ => m.path

theorem length_le_flatMap_writeExtension (es : List ExtensionHeader) :
    es.length ≤ (es.flatMap writeExtension).length := by
  induction es with
  | nil => simp
  | cons e es ih =>
    rw [List.flatMap_cons, List.length_append, length_writeExtension, List.length_cons]
    omega

/-- A sound member is read from what is written for it, whatever follows. -/
theorem readMember_emission {em : Emission} {m : TarMember} (hm : m.Sound ops) (hh : m.header = em.header)
    (he : m.extensions = em.extensions) (label : String) (n : Nat) (rest : Bytes) (broken : Bool) :
    readMember ops label n ⟨em.bytes ++ rest, broken⟩ = .ok (some { m with ordinal := n },
      ⟨em.payload ++ zeros (paddingFor em.payload.length) ++ rest, broken⟩) := by
  obtain ⟨names, hnames, hpath, hlink⟩ := hm.names
  have hbytes : em.bytes ++ rest = m.extensions.flatMap writeExtension ++
      (m.header.1 ++ (em.payload ++ zeros (paddingFor em.payload.length) ++ rest)) := by
    rw [hh, he]
    simp [Emission.bytes]
  have hfuel : m.extensions.length < (em.bytes ++ rest).length + 1 := by
    have := length_le_flatMap_writeExtension m.extensions
    rw [hbytes, List.length_append]
    omega
  rw [readMember, hbytes, readMemberFrom_append hm.readable hm.ordinary _ _ hm.extensions hnames (by
    rw [← hbytes]
    exact hfuel), List.nil_append, ← hpath, ← hlink]

theorem Emission.read_of_sound {em : Emission} {m : TarMember} (hm : m.Sound ops) (hh : m.header = em.header)
    (he : m.extensions = em.extensions) : em.read ops = some { m with ordinal := 0 } := by
  have h := readMember_emission hm hh he "" 0 [] false
  rw [List.append_nil] at h
  rw [Emission.read, h]

/-- An injected header is that of a regular file at the rendered path. -/
theorem injectedHeader_ok (laws : ops.Lawful) {p : Bytes} {mode : UInt32} {size : Nat} {h : Block}
    (hsize : size < 2 ^ 64) (hh : injectedHeader ops p mode size = .ok h) :
    Readable ops h .regular size ∧ rawComponents (ops.pathBytes h) = rawComponents (bytes (fromUtf8Lossy p)) := by
  obtain ⟨h₁, hpath, hh⟩ := Res.bind_ok hh
  obtain ⟨h₂, huser, hh⟩ := Res.bind_ok hh
  obtain ⟨h₃, hgroup, hh⟩ := Res.bind_ok hh
  cases hh
  obtain ⟨path, hview, hraw⟩ := laws.setPath (orError_ok hpath)
  generalize hlast : ops.setMtime (ops.setGid (ops.setUid (ops.setMode (ops.setEntryType h₃ .regular) mode) 0) 0) 0 = h₄
  have hview₄ : ops.view h₄ = { ops.view ops.newUstar with path := path, entryType := .regular } := by
    rw [← hlast, laws.setMtime, laws.setGid, laws.setUid, laws.setMode, laws.setEntryType,
      laws.setGroupname (orError_ok hgroup), laws.setUsername (orError_ok huser), hview]
  have hview₅ : ops.view (ops.setSize h₄ size) = { ops.view h₄ with size := some size } := laws.setSize _ _ hsize
  have hsize₅ : (ops.view (ops.setSize h₄ size)).size = some size := by rw [hview₅]
  obtain ⟨hread, hp, _⟩ := readable_setCksum laws hsize₅ (by rw [hview₅, hview₄]; simp)
  rw [hview₅, hview₄] at hread hp
  exact ⟨hread, by rw [hp]; exact hraw⟩

/-- A header that was re-pointed or cut from its target, with what is kept of its extension headers, is read under the
repaired path, with the link target of the header. -/
theorem repaired_sound (laws : ops.Lawful) {m : TarMember} (hm : m.Sound ops) {promoted : Bool}
    {es : List ExtensionHeader} (hes : filterExtensions ops promoted m.extensions = .ok es) {h : Block} {size : Nat}
    (hpath : (ops.view h).path = ops.pathBytes m.header) (hsize : (ops.view h).size = some size)
    (htype : (ops.view h).entryType ≠ .gnuSparse ∧ (ops.view h).entryType.isExtension = false) :
    TarMember.Sound ops ⟨ops.setCksum h, es, m.repairedPath ops promoted, (ops.view h).link, (ops.view h).entryType,
      size, 0⟩ := by
  obtain ⟨hsound, hnames⟩ := filterExtensions_ok laws hm.extensions hes
  obtain ⟨names, hread, hlong, hpax⟩ := hnames .empty ⟨rfl, rfl⟩
  obtain ⟨hreadable, hp, hl⟩ := readable_setCksum laws hsize htype.1
  refine ⟨hsound, hreadable, htype.2, names, hread, ?_, ?_⟩
  · have hrep : m.repairedPath ops promoted = names.path ops m.header := by
      unfold TarMember.repairedPath
      rw [hes]
      show (match readNames ops .empty es with | .ok names => _ | .error _ => _) = _
      rw [hread]
    rw [hrep]
    simp only [ExtensionNames.path, hp, hpath]
  · simp only [ExtensionNames.link, hlong, hpax, hl]
    rfl

/-! ## What a slot shows -/

variable (ops request plan) in
/-- The components of the path that a reader sees. -/
def shownPath : Slot → List Bytes
  | .injected p => rawComponents (bytes (fromUtf8Lossy p))
  | .entry p e =>
    match request.item ops e.layer e.ordinal with
    | none => []
    | some it =>
      match plan.overrides[p]? with
      | none => rawComponents it.member.path
      | some (.relink _) => rawComponents (it.member.repairedPath ops false)
      | some (.promote _ _) => rawComponents (it.member.repairedPath ops true)

variable (plan) in
/-- The planned kind: promoted links are regular files. -/
def Slot.kind : Slot → MergedKind
  | .injected _ => .regular
  | .entry p e =>
    match plan.overrides[p]? with
    | some (.promote _ _) => .regular
    | _ => e.kind

variable (plan) in
/-- The target a hard link is emitted with. -/
def Slot.link : Slot → Option Bytes
  | .injected _ => none
  | .entry p e =>
    match plan.overrides[p]? with
    | none => e.linkTarget
    | some (.relink t) => some t
    | some (.promote _ _) => none

variable (ops request plan) in
/-- The planned payload: that of the member itself, none for a relinked link, the shadowed content for a promoted one. -/
def Slot.payload : Slot → Bytes
  | .injected p => if p = resolveInjectionPath plan.entries firestoneInitPath then request.initBinary else []
  | .entry p e =>
    match plan.overrides[p]? with
    | none => ((request.item ops e.layer e.ordinal).map (·.payload)).getD []
    | some (.relink _) => []
    | some (.promote o _) => ((request.item ops e.layer o).map (·.payload)).getD []

variable (ops request plan) in
/-- The size in the header that is written. -/
def Slot.size : Slot → Nat
  | .injected p => ((Slot.injected p).payload ops request plan).length
  | .entry p e =>
    match plan.overrides[p]? with
    | some (.promote _ size) => size
    | _ => ((request.item ops e.layer e.ordinal).map (·.member.dataSize)).getD 0

/-- A reader sees a slot as this member. -/
structure Shown (ops : HeaderOps) (request : MergeRequest) (plan : MergePlan) (s : Slot) (em : Emission) (n : Nat)
    (m : TarMember) : Prop where
  sound : m.Sound ops
  header : m.header = em.header
  extensions : m.extensions = em.extensions
  path : rawComponents m.path = shownPath ops request plan s
  kind : classifyEntry m.entryType = s.kind plan
  link : s.kind plan = .hardLink → ∃ t, s.link plan = some t ∧ rawComponents (m.link.getD []) = components t
  payload : em.payload = s.payload ops request plan
  size : m.dataSize = s.size ops request plan
  counted : n = unpackedSize none (s.kind plan) (s.payload ops request plan).length
  framed : (∃ t, ∃ p e, s = .entry p e ∧ plan.overrides[p]? = some (.relink t)) ∨ m.dataSize = em.payload.length

theorem rawComponents_slash (raw : Bytes) :
    rawComponents ((stripStem [slash] raw).getD raw) = rawComponents raw := by
  unfold stripStem
  split
  · rename_i h
    obtain ⟨rest, rfl⟩ := List.isPrefixOf_iff_prefix.mp h
    have hsplit : (slash :: rest).splitOn slash = [] :: rest.splitOn slash := by
      rw [List.splitOn_cons_eq_if_modifyHead]
      simp
    simp [rawComponents, hsplit]
  · rfl

/-- A normalized path has its own components. -/
theorem rawComponents_of_components {p raw : Bytes} (hp : p ≠ []) (h : components p = rawComponents raw) :
    rawComponents p = components p := by
  rw [h]
  rw [components_of_ne hp] at h
  unfold rawComponents
  rw [h, rawComponents, List.filter_filter]
  simp

theorem initBinary_lt (request : MergeRequest) : request.initBinary.length < 2 ^ 64 := by
  unfold MergeRequest.initBinary
  cases request.injectedInit with
  | none => simp
  | some b =>
    have := b.2
    simp only [Option.map_some, Option.getD_some]
    omega

theorem shown_injected (laws : ops.Lawful) {p : Bytes} {em : Emission} {n : Nat}
    (he : Emits ops request plan (.injected p) em n) : ∃ m, Shown ops request plan (.injected p) em n m := by
  cases he with
  | @init _ h hp hh =>
    obtain ⟨hread, hpath⟩ := injectedHeader_ok laws (initBinary_lt request) hh
    refine ⟨⟨h, [], ops.pathBytes h, ops.linkNameBytes h, .regular, request.initBinary.length, 0⟩, ?_⟩
    refine ⟨⟨by simp, hread, rfl, .empty, rfl, rfl, rfl⟩, rfl, rfl, hpath, rfl, by simp [Slot.kind], ?_, ?_, ?_, Or.inr rfl⟩
    · simp only [Slot.payload, if_pos hp]
    · simp only [Slot.size, Slot.payload, if_pos hp]
    · simp only [Slot.kind, Slot.payload, if_pos hp, unpackedSize]
  | @marker _ h hp hh =>
    obtain ⟨hread, hpath⟩ := injectedHeader_ok laws (by omega) hh
    refine ⟨⟨h, [], ops.pathBytes h, ops.linkNameBytes h, .regular, 0, 0⟩, ?_⟩
    refine ⟨⟨by simp, hread, rfl, .empty, rfl, rfl, rfl⟩, rfl, rfl, hpath, rfl, by simp [Slot.kind], ?_, ?_, ?_, Or.inr rfl⟩
    · simp only [Slot.payload, if_neg hp]
    · simp only [Slot.size, Slot.payload, if_neg hp, List.length_nil]
    · simp only [Slot.kind, Slot.payload, if_neg hp, unpackedSize, List.length_nil]

/-- The target of an entry's member, as a reader sees it. -/
theorem EntryOf.link_components {label : String} {members : List Member} {k : Nat} {p : Bytes} {e : MergedEntry}
    {m : Member} (h : EntryOf label members k p e m) (hk : e.kind = .hardLink) :
    ∃ t, e.linkTarget = some t ∧ rawComponents (m.link.getD []) = components t := by
  have hkind := h.kind
  rcases hardLinkTarget_ok h.link with ⟨hn, _⟩ | ⟨t, _, ht, hnorm⟩
  · exact absurd (hkind.symm.trans hk) hn
  · exact ⟨t, ht, by rw [(normalizeLinkTarget_ok hnorm).2, rawComponents_slash]⟩

/-- The path a link is re-pointed at is an entry of the plan that is repaired from the same content. -/
theorem firstWith_some {entries : Entries} {l : List (Bytes × MergedEntry)} {k o : Nat} {r : Bytes}
    (h : firstWith entries l k o = some r) : ∃ e size, (r, e) ∈ l ∧ repairOf entries e = some (k, o, size) := by
  unfold firstWith at h
  obtain ⟨⟨r', e⟩, hfind, rfl⟩ := Option.map_eq_some_iff.mp h
  have hprop := List.find?_some hfind
  obtain ⟨⟨k', o', size⟩, hr, hkey⟩ := (Option.any_eq_true _ _).mp hprop
  simp only [Bool.and_eq_true, decide_eq_true_eq] at hkey
  obtain ⟨rfl, rfl⟩ := hkey
  exact ⟨e, size, List.mem_of_find?_eq_some hfind, hr⟩

/-- What a relinked entry is repaired from, and the entry it is re-pointed at. -/
theorem relink_target {limits : MergeLimits} {layers : List DecodedLayer} (h : buildPlan limits layers = .ok plan)
    {p t : Bytes} {e : MergedEntry} (he : plan.entries[p]? = some e) (hm : plan.overrides[p]? = some (.relink t)) :
    ∃ k o size, repairOf plan.entries e = some (k, o, size) ∧ firstWith plan.entries plan.entries.toList k o = some t ∧
      t ≠ p ∧ t.length ≤ ustarLinkNameLimit := by
  rw [buildPlan_mode h he] at hm
  obtain ⟨⟨k, o, size⟩, hr, hmode⟩ := Option.map_eq_some_iff.mp hm
  unfold repairMode at hmode
  cases hf : firstWith plan.entries plan.entries.toList k o with
  | none => simp [hf] at hmode
  | some r =>
    simp only [hf] at hmode
    split at hmode
    · cases hmode
    · rename_i hcond
      cases hmode
      rw [not_or] at hcond
      exact ⟨k, o, size, hr, hf, hcond.1, by omega⟩

theorem shown_entry (laws : ops.Lawful) {limits : MergeLimits}
    (h : buildPlan limits (request.decoded ops) = .ok plan) {p : Bytes} {e : MergedEntry}
    (he : plan.entries[p]? = some e) {em : Emission} {n : Nat} (hem : Emits ops request plan (.entry p e) em n) :
    ∃ m, Shown ops request plan (.entry p e) em n m := by
  obtain ⟨hfail, hroot, hfrom, _⟩ := buildPlan_entryOf h
  obtain ⟨source, mem, hs, hentry⟩ := hfrom p e he
  obtain ⟨it₀, hit₀, hview⟩ := MergeRequest.item_of_member hs hentry.member
  have hkind₀ : e.kind = classifyEntry it₀.member.entryType := by
    rw [hentry.kind, ← hview]
    rfl
  obtain ⟨hsound₀, hlen₀⟩ := MergeRequest.item_sound hfail hit₀
  cases hem with
  | @verbatim _ _ it hm hit =>
    obtain rfl : it₀ = it := Option.some.inj (hit₀.symm.trans hit)
    have hkind : (Slot.entry p e).kind plan = e.kind := by simp [Slot.kind, hm]
    refine ⟨it₀.member, hsound₀, rfl, rfl, ?_, ?_, ?_, ?_, ?_, ?_, Or.inr hlen₀.symm⟩
    · simp [shownPath, hit, hm]
    · rw [hkind, hkind₀]
    · intro hk
      rw [hkind] at hk
      obtain ⟨t, ht, hraw⟩ := hentry.link_components hk
      rw [← hview] at hraw
      exact ⟨t, by simp [Slot.link, hm, ht], hraw⟩
    · simp [Slot.payload, hm, hit]
    · simp [Slot.size, hm, hit]
    · simp [hkind, Slot.payload, hm, hit, hlen₀]
  | @relink _ t _ it es hd hm hit hes hh =>
    obtain rfl : it₀ = it := Option.some.inj (hit₀.symm.trans hit)
    obtain ⟨k, o, size, hr, hfirst, _, _⟩ := relink_target h he hm
    obtain ⟨er, _, hmem, _⟩ := firstWith_some hfirst
    obtain ⟨_, hhard, _, _⟩ := repairOf_some.mp hr
    obtain ⟨source', mem', _, hentry'⟩ := hfrom t er (Std.TreeMap.mem_toList_iff_getElem?_eq_some.mp hmem)
    have ht : t ≠ [] := by
      rintro rfl
      rw [Std.TreeMap.mem_toList_iff_getElem?_eq_some, hroot] at hmem
      cases hmem
    have hview' := laws.setLinkNameLiteral hh
    rw [if_neg ht] at hview'
    have htype : (ops.view hd).entryType = it₀.member.entryType := by
      rw [hview']
      exact hsound₀.readable.type
    have hsize : (ops.view hd).size = some it₀.member.dataSize := by
      rw [hview']
      exact hsound₀.readable.size
    have hpath : (ops.view hd).path = ops.pathBytes it₀.member.header := by
      rw [hview']
      rfl
    have hlink : (ops.view hd).link = some t := by rw [hview']
    have hsound := repaired_sound laws hsound₀ hes hpath hsize
      ⟨by rw [htype]; exact hsound₀.readable.notSparse, by rw [htype]; exact hsound₀.ordinary⟩
    have hkind : (Slot.entry p e).kind plan = e.kind := by simp [Slot.kind, hm]
    refine ⟨_, hsound, rfl, rfl, ?_, ?_, ?_, ?_, ?_, ?_, Or.inl ⟨t, p, e, rfl, hm⟩⟩
    · simp [shownPath, hit, hm]
    · rw [hkind, hkind₀, htype]
    · intro _
      refine ⟨t, by simp [Slot.link, hm], ?_⟩
      rw [hlink]
      exact rawComponents_of_components ht hentry'.adds.2.symm
    · simp [Slot.payload, hm]
    · simp [Slot.size, hm, hit]
    · rw [hkind, hhard]
      rfl
  | @promote _ _ o _ it src es hd hm hit hes hh hsrc hsz =>
    obtain rfl : it₀ = it := Option.some.inj (hit₀.symm.trans hit)
    obtain ⟨hsoundSrc, hlenSrc⟩ := MergeRequest.item_sound hfail hsrc
    have hlt : n < 2 ^ 64 := by
      rw [← hsz]
      exact laws.entrySize_lt hsoundSrc.readable.size
    have hview' := laws.setLinkNameLiteral hh
    rw [if_pos rfl, laws.setSize _ _ hlt, laws.setEntryType] at hview'
    have htype : (ops.view hd).entryType = .regular := by rw [hview']
    have hsize : (ops.view hd).size = some n := by rw [hview']
    have hpath : (ops.view hd).path = ops.pathBytes it₀.member.header := by
      rw [hview']
      rfl
    have hsound := repaired_sound laws hsound₀ hes hpath hsize (by rw [htype]; exact ⟨by simp, rfl⟩)
    have hkind : (Slot.entry p e).kind plan = .regular := by simp [Slot.kind, hm]
    refine ⟨_, hsound, rfl, rfl, ?_, ?_, ?_, ?_, ?_, ?_, Or.inr (by rw [hlenSrc, hsz])⟩
    · simp [shownPath, hit, hm]
    · rw [hkind, htype]
      rfl
    · intro hk
      rw [hkind] at hk
      cases hk
    · simp [Slot.payload, hm, hsrc]
    · simp [Slot.size, hm]
    · rw [hkind]
      simp [Slot.payload, hm, hsrc, unpackedSize, hlenSrc, hsz]

/-- Every member that is emitted is read as its slot shows it. -/
theorem Emits.shown (laws : ops.Lawful) {limits : MergeLimits}
    (h : buildPlan limits (request.decoded ops) = .ok plan) {s : Slot} (hs : s ∈ slots request plan) {em : Emission}
    {n : Nat} (hem : Emits ops request plan s em n) : ∃ m, Shown ops request plan s em n m := by
  rcases mem_slots hs with ⟨p, _, rfl⟩ | ⟨p, e, rfl, he⟩
  · exact shown_injected laws hem
  · exact shown_entry laws h he hem

end ops

end Firestone.Oci
