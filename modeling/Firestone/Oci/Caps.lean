import Firestone.Lib.Budget
import Firestone.Oci.TarReading
import Firestone.Oci.Ustar

/-!
# How much pass one reads

`build_plan` reads layers member by member and checks its caps at each member, after the header and before the payload.
What it takes from the layers is counted here, also where it stops with an error.

* `readLayers` — pass one with its reads counted; `buildPlan_eq_readLayers` says that it is the pass of `Layers.lean`.
* `planDraws` — what a pass without caps would take, and where it would check; `spend_planDraws` says how caps stop it.
* `planReads_le_iff` — when the caps hold, for every choice of them.
* `planReads_le_of_layersWithin` — where every header is short they do, with a slack for each layer.
* `flood` — a layer of headers alone, which no cap stops.
-/

namespace Firestone.Oci

open Firestone.Lib

/-! ## Counted reads -/

/-- What a read of `n` bytes takes, also from a stream that is too short. -/
def Stream.reads (n : Nat) (s : Stream) : Nat := min n s.bytes.length

/-- Bytes and members read. -/
structure ReadCounts where
  bytes : Nat
  members : Nat
  deriving DecidableEq, Repr

section ops

variable (ops : HeaderOps)

/-- What `readMemberFrom` takes from the stream. -/
def headerReadsFrom (label : String) : Nat → ExtensionNames → Stream → Nat
  | 0, _, _ => 0
  | fuel + 1, names, s =>
    s.reads 512 + match s.readBlock label with
      | .ok (some block, s) =>
        if Block.isZero block then 0
        else match checkHeader ops label block with
          | .error _ => 0
          | .ok (entryType, size) =>
            if entryType.isExtension ∧ size ≤ maxExtensionBytes then
              s.reads (size + paddingFor size) + match s.readExactPadded label size with
                | .error _ => 0
                | .ok (data, s) => match names.read entryType data with
                  | .error _ => 0
                  | .ok names => headerReadsFrom label fuel names s
            else 0
      | _ => 0

/-- What `read_header` takes from the stream. -/
def headerReads (label : String) (s : Stream) : Nat := headerReadsFrom ops label (s.bytes.length + 1) .empty s

/-- What pass one sees of a member. -/
def TarMember.view (m : TarMember) (headerBytes : Nat) : Member :=
  ⟨m.path, m.link, m.entryType, m.dataSize, headerBytes⟩

/-- Reads one layer from the member after `st` on. -/
@[grind =] def readLayer (limits : MergeLimits) (layer : Nat) (label : String) (bytesRead : Nat) :
    Nat → LayerPass → ReadCounts → Stream → ReadCounts × Res LayerPass
  | 0, st, reads, _ => (reads, .ok st)
  | fuel + 1, st, reads, s =>
    let taken := headerReads ops label s
    match readMember ops label st.nextOrdinal s with
    | .error e => (⟨reads.bytes + taken, reads.members⟩, .error e)
    | .ok (none, _) =>
      (⟨reads.bytes + taken, reads.members⟩, .ok { st with cursorBytes := satAdd st.cursorBytes taken })
    | .ok (some m, s') =>
      match mergeMember limits layer label bytesRead st (m.view taken) with
      | .error e => (⟨reads.bytes + taken, reads.members + 1⟩, .error e)
      | .ok st =>
        let reads := ⟨reads.bytes + taken + s'.reads (m.dataSize + paddingFor m.dataSize), reads.members + 1⟩
        match s'.readExactPadded label m.dataSize with
        | .error e => (reads, .error e)
        | .ok (_, s'') => readLayer limits layer label bytesRead fuel st reads s''

/-- Reads the layers from number `k` on. -/
@[grind =]
def readLayers (limits : MergeLimits) : PlanPass → ReadCounts → Nat → List LayerSource → ReadCounts × Res PlanPass
  | st, reads, _, [] => (reads, .ok st)
  | st, reads, k, source :: sources =>
    match source.stream with
    | .error e => (reads, .error e)
    | .ok s =>
      match readLayer ops limits k (source.cursorLabel k) st.bytesRead (s.bytes.length + 1)
        ⟨st.entries, st.membersRead, 0, 0, []⟩ reads s with
      | (reads, .error e) => (reads, .error e)
      | (reads, .ok pass) =>
        readLayers limits ⟨pass.entries, satAdd st.bytesRead pass.cursorBytes, pass.membersRead⟩ reads (k + 1) sources

/-- What pass one takes from the layers until it ends or stops. -/
def planReads (limits : MergeLimits) (layers : List LayerSource) : ReadCounts :=
  (readLayers ops limits ⟨∅, 0, 0⟩ ⟨0, 0⟩ 0 layers).1

end ops

section reads

variable {ops : HeaderOps} {label : String}

theorem Stream.reads_of_readExactPadded {size : Nat} {s s' : Stream} {data : Bytes}
    (h : s.readExactPadded label size = .ok (data, s')) :
    s.reads (size + paddingFor size) = size + paddingFor size ∧
      s.bytes.length = size + paddingFor size + s'.bytes.length := by
  obtain ⟨_, hlength, _⟩ := Stream.readExactPadded_ok h
  exact ⟨Nat.min_eq_left (by omega), hlength⟩

/-- A read that succeeds takes what is gone from the stream. -/
theorem headerReadsFrom_of_ok {ordinal : Nat} {m : Option TarMember} {s' : Stream} :
    ∀ {fuel : Nat} {extensions : List ExtensionHeader} {names : ExtensionNames} {s : Stream},
    readMemberFrom ops label ordinal fuel extensions names s = .ok (m, s') →
    headerReadsFrom ops label fuel names s + s'.bytes.length = s.bytes.length := by
  intro fuel
  induction fuel with
  | zero =>
    intro extensions names s h
    cases h
    rw [headerReadsFrom, Nat.zero_add]
  | succ fuel ih =>
    intro extensions names s h
    obtain ⟨⟨block, s₁⟩, hblock, h⟩ := Res.bind_ok h
    rw [headerReadsFrom, hblock]
    cases block with
    | none =>
      have hempty : s₁ = s ∧ s.bytes.length = 0 := by
        unfold Stream.readBlock at hblock
        split at hblock
        · cases hblock
        split at hblock
        · rename_i hend
          cases hblock
          simp only [Bool.and_eq_true, List.isEmpty_iff] at hend
          exact ⟨rfl, by rw [hend.1]; rfl⟩
        · unfold Stream.short at hblock
          split at hblock <;> cases hblock
      obtain ⟨hsame, hlength⟩ := hempty
      simp only at h
      split at h
      · cases h
        rw [hsame]
        simp only [Stream.reads]
        omega
      · cases h
    | some block =>
      have hs := Stream.readBlock_some hblock
      have hlength : s.bytes.length = 512 + s₁.bytes.length := by
        rw [hs, List.length_append, block.2]
      have hreads : s.reads 512 = 512 := Nat.min_eq_left (by omega)
      simp only at h ⊢
      split at h
      · rename_i hzero
        cases h
        rw [if_pos hzero]
        omega
      rename_i hzero
      obtain ⟨⟨entryType, size⟩, hcheck, h⟩ := Res.bind_ok h
      simp only [hzero, hcheck, Bool.false_eq_true, if_false] at h ⊢
      split at h
      · rename_i hext
        split at h
        · cases h
        rename_i hfits
        obtain ⟨⟨data, s₂⟩, hdata, h⟩ := Res.bind_ok h
        obtain ⟨names₁, hnames, h⟩ := Res.bind_ok h
        obtain ⟨hpayload, hrest⟩ := Stream.reads_of_readExactPadded hdata
        have hnext := ih h
        simp only at hnext
        rw [if_pos ⟨hext, Nat.le_of_not_lt hfits⟩]
        simp only [hdata, hnames]
        omega
      · rename_i hext
        cases h
        rw [if_neg (fun hc => hext hc.1)]
        omega

theorem headerReads_of_ok {ordinal : Nat} {m : Option TarMember} {s s' : Stream}
    (h : readMember ops label ordinal s = .ok (m, s')) : headerReads ops label s = s.bytes.length - s'.bytes.length := by
  have := headerReadsFrom_of_ok h
  rw [headerReads]
  omega

/-! ## The pass of the model -/

theorem mapIdx_succ {α β : Type} (f : Nat → α → β) (k : Nat) (a : α) (l : List α) :
    (a :: l).mapIdx (fun i => f (k + i)) = f k a :: l.mapIdx fun i => f (k + 1 + i) := by
  rw [List.mapIdx_cons]
  simp only [Nat.add_zero, Nat.add_assoc, Nat.add_comm 1]

/-- The pass over a layer that is decoded first. -/
theorem readLayer_result {limits : MergeLimits} {layer bytesRead : Nat} :
    ∀ {fuel : Nat} {st : LayerPass} {reads : ReadCounts} {s : Stream}, s.bytes.length < fuel →
    (readLayer ops limits layer label bytesRead fuel st reads s).2 = (do
      let pass ← ((decodeFrom ops label fuel st.nextOrdinal s).items.map (·.view)).foldlM
        (mergeMember limits layer label bytesRead) st
      match (decodeFrom ops label fuel st.nextOrdinal s).failure with
      | some error => throw error
      | none => return { pass with
          cursorBytes := satAdd pass.cursorBytes (decodeFrom ops label fuel st.nextOrdinal s).trailingBytes }) := by
  intro fuel
  induction fuel with
  | zero =>
    intro st reads s h
    omega
  | succ fuel ih =>
    intro st reads s hfuel
    rw [readLayer, decodeFrom]
    cases hread : readMember ops label st.nextOrdinal s with
    | error e => rfl
    | ok r =>
      obtain ⟨m, s'⟩ := r
      have htaken := headerReads_of_ok hread
      cases m with
      | none =>
        simp only [htaken]
        rfl
      | some m =>
        obtain ⟨_, _, hlt⟩ := readMember_some hread
        simp only [htaken]
        cases hmerge : mergeMember limits layer label bytesRead st (m.view (s.bytes.length - s'.bytes.length)) with
        | error e =>
          cases hpay : s'.readExactPadded label m.dataSize with
          | error e' =>
            simp only [List.map_cons, List.foldlM_cons, TarItem.view]
            rw [TarMember.view] at hmerge
            rw [hmerge]
            rfl
          | ok r =>
            simp only [Decoded.cons, List.map_cons, List.foldlM_cons, TarItem.view]
            rw [TarMember.view] at hmerge
            rw [hmerge]
            rfl
        | ok st' =>
          have hordinal := (mergeMember_ok hmerge).1
          rw [TarMember.view] at hmerge
          cases hpay : s'.readExactPadded label m.dataSize with
          | error e' =>
            simp only [List.map_cons, List.foldlM_cons, TarItem.view]
            rw [hmerge]
            rfl
          | ok r =>
            obtain ⟨payload, s''⟩ := r
            obtain ⟨_, hlength, _⟩ := Stream.readExactPadded_ok hpay
            simp only [Decoded.cons, List.map_cons, List.foldlM_cons, TarItem.view]
            rw [hmerge, ih (by omega), hordinal]
            rfl

/-- Counting the reads changes nothing in the pass. -/
theorem readLayers_result {limits : MergeLimits} : ∀ {layers : List LayerSource} {st : PlanPass} {reads : ReadCounts} {k : Nat},
    (readLayers ops limits st reads k layers).2 =
      mergeLayersFrom limits st k (layers.mapIdx fun i source => source.decode ops (k + i))
  | [], st, reads, k => rfl
  | source :: layers, st, reads, k => by
    rw [mapIdx_succ (fun i (source : LayerSource) => source.decode ops i), readLayers, mergeLayersFrom]
    cases hstream : source.stream with
    | error e =>
      simp only [mergeLayer, LayerSource.decode, LayerSource.contents, hstream]
      rfl
    | ok s =>
      have hlayer : mergeLayer limits st k (source.decode ops k) = (do
          let pass ← (readLayer ops limits k (source.cursorLabel k) st.bytesRead (s.bytes.length + 1)
            ⟨st.entries, st.membersRead, 0, 0, []⟩ reads s).2
          return ⟨pass.entries, satAdd st.bytesRead pass.cursorBytes, pass.membersRead⟩) := by
        rw [readLayer_result (Nat.lt_succ_self _)]
        simp only [mergeLayer, LayerSource.decode, LayerSource.contents, hstream, bind_assoc]
        refine bind_congr fun pass => ?_
        rw [decodeAt]
        cases (decodeFrom ops (source.cursorLabel k) (s.bytes.length + 1) 0 s).failure <;> rfl
      rw [hlayer]
      simp only
      cases hread : readLayer ops limits k (source.cursorLabel k) st.bytesRead (s.bytes.length + 1)
        ⟨st.entries, st.membersRead, 0, 0, []⟩ reads s with
      | mk reads' out =>
        cases out with
        | error e => rfl
        | ok pass => exact readLayers_result

/-- `buildPlan` is the counted pass over the same layers. -/
theorem buildPlan_eq_readLayers (limits : MergeLimits) (layers : List LayerSource) :
    buildPlan limits (layers.mapIdx fun i source => source.decode ops i) = (do
      let st ← (readLayers ops limits ⟨∅, 0, 0⟩ ⟨0, 0⟩ 0 layers).2
      let overrides ← planHardlinks st.entries
      return ⟨st.entries, overrides, st.bytesRead⟩) := by
  rw [readLayers_result]
  simp only [Nat.zero_add]
  rfl

end reads

/-! ## The draws of a pass -/

/-- The rules refuse the member, whatever was read before. -/
def refused (label : String) (m : Member) : Bool :=
  match normalizeEntryPath m.path label with
  | .error _ => true
  | .ok none => false
  | .ok (some path) =>
    let name := (splitLastComponent path).2
    if name = opaqueMarker then false
    else match stripStem whiteoutStem name with
      | some removed => removed.isEmpty
      | none => !(hardLinkTarget label m).toBool

section ops

variable (ops : HeaderOps)

/-- What a pass without caps takes from one layer, and where it would check them; `more` follows a layer that ends well. -/
@[grind =] def layerDraws (label : String) (more : List Draw) : Nat → Nat → Stream → List Draw
  | 0, _, _ => more
  | fuel + 1, ordinal, s =>
    .take (headerReads ops label s) :: match readMember ops label ordinal s with
      | .error _ => []
      | .ok (none, _) => more
      | .ok (some m, s') =>
        .check m.dataSize :: if refused label (m.view (headerReads ops label s)) then []
          else .take (s'.reads (m.dataSize + paddingFor m.dataSize)) :: match s'.readExactPadded label m.dataSize with
            | .error _ => []
            | .ok (_, s'') => layerDraws label more fuel (ordinal + 1) s''

@[grind =] def planDraws : Nat → List LayerSource → List Draw
  | _, [] => []
  | k, source :: sources =>
    match source.stream with
    | .error _ => []
    | .ok s => layerDraws ops (source.cursorLabel k) (planDraws (k + 1) sources) (s.bytes.length + 1) 0 s

end ops

/-- Where the counter of bytes stays. -/
def topBytes : Nat := 2 ^ 64 - 1

section draws

variable {ops : HeaderOps} {label : String} {limits : MergeLimits}

theorem checkCaps_ok_iff {made projected : Nat} :
    checkCaps limits made projected = .ok () ↔ made ≤ limits.maxEntries ∧ projected ≤ limits.maxUncompressedBytes := by
  unfold checkCaps
  split
  · simp
    omega
  · split
    · simp
      omega
    · simp
      omega

/-- The rules refuse a member for its names alone. -/
theorem mergePath_toBool (st : LayerPass) (layer : Nat) {m : Member} {path : Bytes}
    (h : normalizeEntryPath m.path label = .ok (some path)) :
    (mergePath st layer label m path).toBool = !refused label m := by
  unfold mergePath refused
  simp only [h]
  split
  · rfl
  · cases stripStem whiteoutStem (splitLastComponent path).2 with
    | some removed =>
      simp only
      cases removed with
      | nil => rfl
      | cons b removed => rfl
    | none =>
      simp only [mergedEntry]
      cases hardLinkTarget label m with
      | error e => rfl
      | ok target => rfl

/-- A member is refused by the caps or by the rules; else the counters advance. -/
theorem mergeMember_spec (limits : MergeLimits) (label : String) (layer bytesRead : Nat) (st : LayerPass) (m : Member)
    {projected : Nat}
    (hprojected : satAdd (satAdd bytesRead (satAdd st.cursorBytes m.headerBytes)) m.dataSize = projected) :
    match mergeMember limits layer label bytesRead st m with
    | .error _ => (limits.maxEntries < st.membersRead + 1 ∨ limits.maxUncompressedBytes < projected) ∨ refused label m = true
    | .ok st' => ¬(limits.maxEntries < st.membersRead + 1 ∨ limits.maxUncompressedBytes < projected) ∧
        refused label m = false ∧ st'.membersRead = st.membersRead + 1 ∧ st'.nextOrdinal = st.nextOrdinal + 1 ∧
        st'.cursorBytes = (st.advance m).cursorBytes := by
  unfold mergeMember
  rw [hprojected]
  cases hcaps : checkCaps limits (st.membersRead + 1) projected with
  | error e =>
    have hnot : ¬(st.membersRead + 1 ≤ limits.maxEntries ∧ projected ≤ limits.maxUncompressedBytes) := by
      intro hc
      rw [checkCaps_ok_iff.mpr hc] at hcaps
      cases hcaps
    exact Or.inl (by omega)
  | ok u =>
    have hroom := checkCaps_ok_iff.mp hcaps
    have hpass : ¬(limits.maxEntries < st.membersRead + 1 ∨ limits.maxUncompressedBytes < projected) := by omega
    cases hpath : normalizeEntryPath m.path label with
    | error e =>
      have hrefused : refused label m = true := by rw [refused, hpath]
      exact Or.inr hrefused
    | ok path =>
      cases path with
      | none =>
        have hkept : refused label m = false := by rw [refused, hpath]
        exact ⟨hpass, hkept, rfl, rfl, rfl⟩
      | some path =>
        have hrules := mergePath_toBool st layer hpath
        simp only [bind, Except.bind]
        cases hmerge : mergePath st layer label m path with
        | error e =>
          rw [hmerge] at hrules
          exact Or.inr (by simpa [Except.toBool] using hrules.symm)
        | ok r =>
          rw [hmerge] at hrules
          exact ⟨hpass, by simpa [Except.toBool] using hrules.symm, rfl, rfl, rfl⟩

/-- The counters of a pass are the reads so far, up to where they stay. -/
structure Counts (bytesRead : Nat) (st : LayerPass) (reads : ReadCounts) : Prop where
  bytes : satAdd bytesRead st.cursorBytes = min reads.bytes topBytes
  members : st.membersRead = reads.members

/-- The caps stop the draws of a layer where they stop its pass. -/
theorem spend_layerDraws {layer bytesRead : Nat} {more : List Draw} :
    ∀ {fuel : Nat} {st : LayerPass} {reads : ReadCounts} {s : Stream}, Counts bytesRead st reads →
    Draw.spend topBytes limits.maxUncompressedBytes limits.maxEntries reads.bytes reads.members
        (layerDraws ops label more fuel st.nextOrdinal s) =
      (match readLayer ops limits layer label bytesRead fuel st reads s with
      | (reads, .error _) => (reads.bytes, reads.members)
      | (reads, .ok _) => Draw.spend topBytes limits.maxUncompressedBytes limits.maxEntries reads.bytes reads.members more) ∧
    ∀ {reads' : ReadCounts} {pass : LayerPass},
      readLayer ops limits layer label bytesRead fuel st reads s = (reads', .ok pass) → Counts bytesRead pass reads' := by
  intro fuel
  induction fuel with
  | zero =>
    intro st reads s hcounts
    refine ⟨rfl, ?_⟩
    intro reads' pass h
    cases h
    exact hcounts
  | succ fuel ih =>
    intro st reads s hcounts
    obtain ⟨hbytes, hmembers⟩ := hcounts
    rw [layerDraws, readLayer, Draw.spend]
    cases hread : readMember ops label st.nextOrdinal s with
    | error e =>
      refine ⟨rfl, ?_⟩
      intro _ _ h
      cases h
    | ok r =>
      obtain ⟨m, s'⟩ := r
      cases m with
      | none =>
        refine ⟨rfl, ?_⟩
        intro reads' pass h
        cases h
        refine ⟨?_, hmembers⟩
        simp only [satAdd, topBytes] at hbytes ⊢
        omega
      | some m =>
        have hprojected : satAdd (satAdd bytesRead (satAdd st.cursorBytes (headerReads ops label s))) m.dataSize =
            min (reads.bytes + headerReads ops label s + m.dataSize) topBytes := by
          simp only [satAdd, topBytes] at hbytes ⊢
          omega
        have hspec := mergeMember_spec limits label layer bytesRead st (m.view (headerReads ops label s)) hprojected
        rw [hmembers] at hspec
        simp only [Draw.spend]
        cases hmerge : mergeMember limits layer label bytesRead st (m.view (headerReads ops label s)) with
        | error e =>
          rw [hmerge] at hspec
          refine ⟨?_, by intro _ _ h; cases h⟩
          simp only at hspec ⊢
          -- the caps stop the draws at the check, the rules right after it
          split
          · rfl
          · rename_i hroom
            rw [if_pos (hspec.resolve_left hroom)]
            rfl
        | ok st' =>
          rw [hmerge] at hspec
          obtain ⟨hroom, hkept, hmade, hordinal, hcursor⟩ := hspec
          rw [if_neg hroom, hkept, if_neg (by decide), Draw.spend]
          cases hpay : s'.readExactPadded label m.dataSize with
          | error e =>
      refine ⟨rfl, ?_⟩
      intro _ _ h
      cases h
          | ok r =>
            obtain ⟨payload, s''⟩ := r
            have hnext : Counts bytesRead st'
                ⟨reads.bytes + headerReads ops label s + s'.reads (m.dataSize + paddingFor m.dataSize),
                  reads.members + 1⟩ := by
              refine ⟨?_, hmade⟩
              rw [hcursor, (Stream.reads_of_readExactPadded hpay).1]
              simp only [satAdd, topBytes, LayerPass.advance, TarMember.view] at hbytes ⊢
              omega
            simp only
            rw [← hordinal]
            exact ih hnext

theorem spend_planDraws : ∀ {layers : List LayerSource} {st : PlanPass} {reads : ReadCounts} {k : Nat},
    Counts st.bytesRead ⟨st.entries, st.membersRead, 0, 0, []⟩ reads →
    Draw.spend topBytes limits.maxUncompressedBytes limits.maxEntries reads.bytes reads.members (planDraws ops k layers) =
      ((readLayers ops limits st reads k layers).1.bytes, (readLayers ops limits st reads k layers).1.members)
  | [], _, _, _, _ => rfl
  | source :: layers, st, reads, k, hcounts => by
    rw [planDraws, readLayers]
    cases hstream : source.stream with
    | error e => rfl
    | ok s =>
      simp only
      obtain ⟨hspend, hend⟩ := @spend_layerDraws ops (source.cursorLabel k) limits k st.bytesRead
        (planDraws ops (k + 1) layers) (s.bytes.length + 1) _ _ s hcounts
      rw [hspend]
      cases hread : readLayer ops limits k (source.cursorLabel k) st.bytesRead (s.bytes.length + 1)
        ⟨st.entries, st.membersRead, 0, 0, []⟩ reads s with
      | mk reads' out =>
        cases out with
        | error e => rfl
        | ok pass =>
          obtain ⟨hbytes, hmembers⟩ := hend hread
          simp only
          refine spend_planDraws ⟨?_, hmembers⟩
          simp only [satAdd, topBytes] at hbytes ⊢
          omega

/-- What the caps let a pass take of its draws. -/
theorem planReads_eq (ops : HeaderOps) (limits : MergeLimits) (layers : List LayerSource) :
    Draw.spend topBytes limits.maxUncompressedBytes limits.maxEntries 0 0 (planDraws ops 0 layers) =
      ((planReads ops limits layers).bytes, (planReads ops limits layers).members) :=
  @spend_planDraws ops limits layers ⟨∅, 0, 0⟩ ⟨0, 0⟩ 0 ⟨rfl, rfl⟩

/-- A payload that is checked is read, or the pass ends in it. -/
theorem covered_layerDraws {more : List Draw} (hmore : Draw.Covered 0 more) : ∀ {fuel ordinal : Nat} {s : Stream},
    Draw.Covered 0 (layerDraws ops label more fuel ordinal s) := by
  intro fuel
  induction fuel with
  | zero => exact fun {_ _} => hmore
  | succ fuel ih =>
    intro ordinal s
    rw [layerDraws, Draw.Covered, Nat.zero_sub]
    split
    · trivial
    · exact hmore
    · refine ⟨rfl, ?_⟩
      split
      · trivial
      rw [Draw.Covered]
      split
      · trivial
      · rename_i hpay
        rw [(Stream.reads_of_readExactPadded hpay).1, Nat.sub_eq_zero_of_le (Nat.le_add_right _ _)]
        exact ih

theorem covered_planDraws : ∀ (layers : List LayerSource) (k : Nat), Draw.Covered 0 (planDraws ops k layers)
  | [], _ => trivial
  | source :: layers, k => by
    rw [planDraws]
    split
    · trivial
    · exact covered_layerDraws (covered_planDraws layers (k + 1))

/-- **The caps**: for every choice of them a pass reads at most `slack` bytes above its cap, and one member above, exactly
when what it would read from one payload to the next member is at most `slack`. -/
theorem planReads_le_iff (ops : HeaderOps) (layers : List LayerSource) (slack : Nat) :
    (∀ limits : MergeLimits, (planReads ops limits layers).bytes ≤ limits.maxUncompressedBytes + slack ∧
        (planReads ops limits layers).members ≤ limits.maxEntries + 1) ↔
      Draw.Within slack 0 0 (planDraws ops 0 layers) ∧ Draw.total (planDraws ops 0 layers) ≤ topBytes + slack := by
  rw [← Draw.spend_le_iff (covered_planDraws layers 0)]
  constructor
  · intro h cap count
    have hcaps := planReads_eq ops ⟨cap, count⟩ layers
    rw [hcaps]
    exact (h ⟨cap, count⟩).1
  · intro h limits
    have hcaps := planReads_eq ops limits layers
    have hbytes := h limits.maxUncompressedBytes limits.maxEntries
    rw [hcaps] at hbytes
    refine ⟨hbytes, ?_⟩
    have hmembers : (Draw.spend topBytes limits.maxUncompressedBytes limits.maxEntries 0 0 (planDraws ops 0 layers)).2 ≤
        limits.maxEntries + 1 := Draw.spend_checks_le (Nat.zero_le _)
    rw [hcaps] at hmembers
    exact hmembers

/-! ## Short headers -/

variable (ops label) in
/-- No call of `read_header` takes more than `most` bytes. -/
def HeadersWithin (most : Nat) : Nat → Nat → Stream → Prop
  | 0, _, _ => True
  | fuel + 1, ordinal, s =>
    headerReads ops label s ≤ most ∧ match readMember ops label ordinal s with
      | .ok (some m, s') => match s'.readExactPadded label m.dataSize with
        | .ok (_, s'') => HeadersWithin most fuel (ordinal + 1) s''
        | .error _ => True
      | _ => True

variable (ops) in
def LayersWithin (most : Nat) (layers : List LayerSource) : Prop :=
  ∀ (k : Nat) (source : LayerSource) (s : Stream), layers[k]? = some source → source.stream = .ok s →
    HeadersWithin ops (source.cursorLabel k) most (s.bytes.length + 1) 0 s

theorem paddingFor_lt (size : Nat) : paddingFor size < 512 := Nat.mod_lt _ (by decide)

/-- After a payload there is room for one header of each layer to come. -/
theorem within_layerDraws {most slack rest : Nat} {more : List Draw} (hslack : 511 + (rest + 1) * most ≤ slack)
    (hmore : ∀ {declared since : Nat}, since + rest * most ≤ declared + slack → Draw.Within slack declared since more) :
    ∀ {fuel ordinal declared since : Nat} {s : Stream}, HeadersWithin ops label most fuel ordinal s →
    since + (rest + 1) * most ≤ declared + slack →
    Draw.Within slack declared since (layerDraws ops label more fuel ordinal s) := by
  intro fuel
  rw [Nat.succ_mul] at hslack ⊢
  induction fuel with
  | zero =>
    intro ordinal declared since s _ hsince
    exact hmore (by omega)
  | succ fuel ih =>
    intro ordinal declared since s hheaders hsince
    obtain ⟨hhead, htail⟩ := hheaders
    rw [layerDraws, Draw.Within]
    cases hread : readMember ops label ordinal s with
    | error e => exact (by omega : since + headerReads ops label s ≤ declared + slack)
    | ok r =>
      obtain ⟨m, s'⟩ := r
      rw [hread] at htail
      cases m with
      | none => exact hmore (by omega)
      | some m =>
        have hpadding := paddingFor_lt m.dataSize
        have hpayload : s'.reads (m.dataSize + paddingFor m.dataSize) ≤ m.dataSize + paddingFor m.dataSize :=
          Nat.min_le_left _ _
        refine ⟨by omega, ?_⟩
        split
        · exact Nat.zero_le _
        rw [Draw.Within]
        cases hpay : s'.readExactPadded label m.dataSize with
        | error e => exact (by omega : 0 + s'.reads (m.dataSize + paddingFor m.dataSize) ≤ m.dataSize + slack)
        | ok r =>
          simp only [hpay] at htail
          exact ih htail (by omega)

theorem within_planDraws {most slack : Nat} : ∀ {layers : List LayerSource} {k declared since : Nat},
    511 + layers.length * most ≤ slack →
    (∀ (i : Nat) (source : LayerSource) (s : Stream), layers[i]? = some source → source.stream = .ok s →
      HeadersWithin ops (source.cursorLabel (k + i)) most (s.bytes.length + 1) 0 s) →
    since + layers.length * most ≤ declared + slack → Draw.Within slack declared since (planDraws ops k layers)
  | [], k, declared, since, _, _, hsince => by
    simpa [planDraws, Draw.Within] using hsince
  | source :: layers, k, declared, since, hslack, hlayers, hsince => by
    rw [planDraws]
    cases hstream : source.stream with
    | error e => exact (by omega : since ≤ declared + slack)
    | ok s =>
      refine @within_layerDraws ops (source.cursorLabel k) most slack layers.length (planDraws ops (k + 1) layers) hslack ?_
        _ _ _ _ _ (hlayers 0 source s rfl hstream) hsince
      intro declared since hroom
      rw [List.length_cons, Nat.succ_mul] at hslack
      refine within_planDraws (by omega) ?_ hroom
      intro i source' s' hget hs'
      have hnext := hlayers (i + 1) source' s' hget hs'
      rw [Nat.add_assoc, Nat.add_comm 1 i]
      exact hnext

/-- Where no header takes more than `most` bytes, a cap holds up to one such header for each layer. -/
theorem planReads_le_of_layersWithin {most : Nat} {layers : List LayerSource} (h : LayersWithin ops most layers)
    (hcap : limits.maxUncompressedBytes < topBytes) :
    (planReads ops limits layers).bytes ≤ limits.maxUncompressedBytes + (511 + layers.length * most) := by
  have hwithin : Draw.Within (511 + layers.length * most) 0 0 (planDraws ops 0 layers) := by
    refine @within_planDraws ops most _ layers 0 0 0 (Nat.le_refl _) ?_ (by omega)
    intro i source s hget hs
    rw [Nat.zero_add]
    exact h i source s hget hs
  have hspend := @Draw.spend_le_of_within topBytes limits.maxUncompressedBytes limits.maxEntries _ _ 0 0 0 0 hwithin
    (Or.inl hcap) (Or.inl (Nat.zero_le _))
  rw [Nat.zero_add, planReads_eq ops limits layers] at hspend
  exact hspend

end draws

/-! ## Floods -/

/-- An empty global header. -/
def globalHeader : Block :=
  Ustar.ops.setCksum (Ustar.ops.setSize (Ustar.ops.setEntryType Ustar.ops.newUstar .xGlobalHeader) 0)

/-- A stream of empty global headers and no member. -/
@[grind =] def globalHeaders : Nat → Bytes
  | 0 => zeros 1024
  | n + 1 => globalHeader.1 ++ globalHeaders n

def flood (n : Nat) : LayerSource := ⟨"flood", .ok ⟨globalHeaders n, false⟩⟩

theorem globalHeader_readable : Readable Ustar.ops globalHeader .xGlobalHeader 0 where
  nonzero := by decide
  checksum := ⟨(Ustar.ops.cksum globalHeader).getD 0, by decide +kernel, by decide +kernel⟩
  type := by decide
  notSparse := by decide
  size := by decide

theorem length_globalHeaders : ∀ n : Nat, (globalHeaders n).length = 512 * n + 1024
  | 0 => length_zeros 1024
  | n + 1 => by
    rw [globalHeaders, List.length_append, globalHeader.2, length_globalHeaders n]
    omega

/-- `read_header` reads all of them before it returns. -/
theorem readMemberFrom_globalHeaders (label : String) : ∀ {n fuel : Nat}, n < fuel →
    readMemberFrom Ustar.ops label 0 fuel [] .empty ⟨globalHeaders n, false⟩ = .ok (none, ⟨zeros 512, false⟩)
  | n, 0, h => absurd h (Nat.not_lt_zero _)
  | 0, fuel + 1, _ => by
    have hzeros : globalHeaders 0 = zeros 512 ++ zeros 512 := by
      rw [globalHeaders, zeros, zeros, List.replicate_append_replicate]
    have hblock : Stream.readBlock label ⟨zeros 512 ++ zeros 512, false⟩ =
        .ok (some ⟨zeros 512, length_zeros 512⟩, ⟨zeros 512, false⟩) :=
      Stream.readBlock_append label ⟨zeros 512, length_zeros 512⟩ (zeros 512) false
    have hzero : Block.isZero ⟨zeros 512, length_zeros 512⟩ = true := by decide +kernel
    rw [readMemberFrom, hzeros, hblock]
    simp only [bind, Except.bind, hzero]
    rfl
  | n + 1, fuel + 1, h => by
    have hext : EntryType.xGlobalHeader.isExtension = true := rfl
    have hnone : Stream.readExactPadded label 0 ⟨globalHeaders n, false⟩ = .ok ([], ⟨globalHeaders n, false⟩) :=
      Stream.readExactPadded_append label [] (globalHeaders n) false
    rw [readMemberFrom, globalHeaders, Stream.readBlock_append]
    simp only [bind, Except.bind, globalHeader_readable.nonzero, checkHeader_of_readable globalHeader_readable label, hext, hnone]
    exact readMemberFrom_globalHeaders label (Nat.lt_of_succ_lt_succ h)

/-- No cap stops a flood. -/
theorem planReads_flood (limits : MergeLimits) (n : Nat) : (planReads Ustar.ops limits [flood n]).bytes = 512 * (n + 1) := by
  have hlength := length_globalHeaders n
  have hread : readMember Ustar.ops ((flood n).cursorLabel 0) 0 ⟨globalHeaders n, false⟩ =
      .ok (none, ⟨zeros 512, false⟩) := by
    refine readMemberFrom_globalHeaders _ ?_
    simp only
    omega
  have htaken := headerReads_of_ok hread
  rw [length_zeros, hlength] at htaken
  have hreads : (planReads Ustar.ops limits [flood n]).bytes =
      0 + headerReads Ustar.ops ((flood n).cursorLabel 0) ⟨globalHeaders n, false⟩ := by
    simp only [planReads, readLayers, flood] at hread ⊢
    rw [readLayer, hread]
  rw [hreads, htaken]
  omega

/-- Two megabytes of headers under a cap of a kilobyte; and no slack for each layer is enough. -/
theorem flood_above_caps :
    (planReads Ustar.ops ⟨1024, 1⟩ [flood 4096]).bytes > 1024 + (maxExtensionBytes + 1024 * 512) ∧
      ¬∃ slack, ∀ (limits : MergeLimits) (layers : List LayerSource),
        (planReads Ustar.ops limits layers).bytes ≤ limits.maxUncompressedBytes + slack * layers.length := by
  constructor
  · rw [planReads_flood]
    decide
  · rintro ⟨slack, h⟩
    have hflood := h ⟨0, 0⟩ [flood slack]
    rw [planReads_flood] at hflood
    simp only [List.length_cons, List.length_nil] at hflood
    omega

end Firestone.Oci
