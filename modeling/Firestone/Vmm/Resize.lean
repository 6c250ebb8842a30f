import Firestone.Vmm.Config

/-!
# Live resizes and the restore of a warm snapshot

A live resize is checked against the capacity read back from the published VmConfig and writes `cpus` and `memory` of
the spec only. A later restore renders the VmConfig anew from that spec and accepts it if it is the captured one, or
differs from it only where a live resize may move it.

`resized_restorable_iff` says when the two agree: the ceilings of the configuration have to come from `cpus_max` and
`memory_max`, else they move with the resize.
-/

namespace Firestone.Vmm

open Firestone.Lib

/-! ## Capacity -/

/-- The live-resize headroom of the VmConfig the machine booted with. -/
structure VmConfigCapacity where
  bootVcpus : Nat
  maxVcpus : Nat
  bootMemory : Nat
  maxMemory : Nat
  deriving DecidableEq, Repr

def u8Max : Nat := 255

def u64Max : Nat := 2 ^ 64 - 1

/-- The value at a path of keys. -/
def getPath : Json → List String → Option Json
  | v, [] => some v
  | v, key :: rest =>
    match v.members.lookup key with
    | some next => getPath next rest
    | none => none

def capacityError (name what : String) (path : List String) : FirestoneError :=
  (FirestoneError.new .dependency ("published VmConfig for machine `" ++ name ++ "` " ++ what ++ " `" ++
    ".".intercalate path ++ "`")).withHint ("restart machine " ++ name ++ " to republish canonical VmConfig")

def capacityField (name : String) (published : Json) (path : List String) : Res (Option Nat) :=
  match getPath published path with
  | none => .ok none
  | some v =>
    match v.asU64 with
    | some n => .ok (some n)
    | none => .error (capacityError name "has a non-numeric" path)

def requiredField (name : String) (published : Json) (path : List String) : Res Nat := do
  match ← capacityField name published path with
  | some n => .ok n
  | none => .error (capacityError name "is missing" path)

def vcpuField (name : String) (published : Json) (path : List String) : Res Nat := do
  let n ← requiredField name published path
  if n ≤ u8Max then .ok n else .error (capacityError name "has an out-of-range" path)

/-- `published_vmconfig_capacity`. -/
def publishedVmconfigCapacity (name : String) (published : Json) : Res VmConfigCapacity := do
  let bootVcpus ← vcpuField name published ["cpus", "boot_vcpus"]
  let maxVcpus ← vcpuField name published ["cpus", "max_vcpus"]
  let bootMemory ← requiredField name published ["memory", "size"]
  let hotplug ← capacityField name published ["memory", "hotplug_size"]
  .ok ⟨bootVcpus, maxVcpus, bootMemory, min (bootMemory + hotplug.getD 0) u64Max⟩

def noHeadroomError (name message : String) : FirestoneError :=
  (FirestoneError.new .conflict message).withHint ("set cpus_max/memory_max and restart machine " ++ name)

/-- `VmConfigCapacity::check`. -/
def VmConfigCapacity.check (c : VmConfigCapacity) (name : String) (cpus memory : Nat) : Res Unit :=
  if cpus > c.maxVcpus then
    .error <| noHeadroomError name ("machine `" ++ name ++ "` booted with max_vcpus " ++ toString c.maxVcpus ++
      " and cannot reach " ++ toString cpus ++ " vCPUs")
  else if memory > c.maxMemory then
    .error <| noHeadroomError name ("machine `" ++ name ++ "` booted with " ++ toString c.maxMemory ++
      " bytes of hotplug headroom and cannot reach " ++ toString memory ++ " bytes")
  else if memory < c.bootMemory then
    .error <| noHeadroomError name ("machine `" ++ name ++ "` booted with " ++ toString c.bootMemory ++
      " bytes of memory and cannot shrink below it")
  else if cpus < 1 then
    .error <| (FirestoneError.new .invalidSpec ("machine `" ++ name ++ "` must keep at least one vCPU")).withHint
      "set cpus to 1 or more"
  else .ok ()

/-- The sizes a resize asks for. -/
structure Resize where
  cpus : Option Nat
  memory : Option Nat
  deriving DecidableEq, Repr

/-- `resize` of a running machine whose spec is `spec` and whose published VmConfig is `published`: the spec it
writes. -/
def liveResize (name : String) (published : Json) (spec : VmSpec) (r : Resize) : Res VmSpec :=
  if r.cpus.isNone ∧ r.memory.isNone then
    .error <| (FirestoneError.new .usage ("resize of machine `" ++ name ++ "` requested no change")).withHint
      "pass --cpus N, --memory SIZE, or both"
  else do
    let loaded : VmSpec := { spec with cpus := r.cpus.getD spec.cpus, memory := r.memory.getD spec.memory }
    let capacity ← publishedVmconfigCapacity name published
    capacity.check name loaded.cpus loaded.memory
    .ok loaded

/-- The vCPUs after a sequence of resizes, from the last one that asks for any. -/
def finalCpus (rs : List Resize) (cpus : Nat) : Nat := rs.foldl (fun n r => r.cpus.getD n) cpus

def finalMemory (rs : List Resize) (memory : Nat) : Nat := rs.foldl (fun n r => r.memory.getD n) memory

def liveResizes (name : String) (published : Json) : VmSpec → List Resize → Res VmSpec
  | spec, [] => .ok spec
  | spec, r :: rest => do
    let spec ← liveResize name published spec r
    liveResizes name published spec rest

/-! ## The tolerant comparison -/

/-- The boot memory ceiling. -/
def memoryCeiling (memory : List (String × Json)) : Option Nat := do
  let size ← (← memory.lookup "size").asU64
  match memory.lookup "hotplug_size" with
  | none | some .null => some size
  | some v => do
    let hotplug ← v.asU64
    some (size + hotplug)

def mapsMatchExcept (left right : List (String × Json)) (ignored : List String) : Bool :=
  (left.filter fun x => x.1 ∉ ignored) = (right.filter fun x => x.1 ∉ ignored)

/-- `vmconfig_differs_only_by_live_resize` of the two decoded documents. -/
def vmconfigDiffersOnlyByLiveResize (captured published : Json) : Bool :=
  match captured, published with
  | .obj left, .obj right =>
    match left.lookup "cpus", right.lookup "cpus", left.lookup "memory", right.lookup "memory" with
    | some (.obj leftCpus), some (.obj rightCpus), some (.obj leftMemory), some (.obj rightMemory) =>
      eraseMember "memory" (eraseMember "cpus" left) = eraseMember "memory" (eraseMember "cpus" right) &&
        leftCpus.lookup "max_vcpus" = rightCpus.lookup "max_vcpus" &&
        mapsMatchExcept leftCpus rightCpus ["boot_vcpus"] &&
        mapsMatchExcept leftMemory rightMemory ["size", "hotplug_size"] &&
        memoryCeiling leftMemory = memoryCeiling rightMemory
    | _, _, _, _ => false
  | _, _ => false

/-- `prepare_restore_launch` accepts the VmConfig published for this launch: it is the captured one, or its decoded
document differs from it only by a live resize. -/
def RestoreAccepts (ρ : UInt64 → UInt64) (captured published : List (String × Json)) : Prop :=
  published = captured ∨
    vmconfigDiffersOnlyByLiveResize (Json.reload ρ (.obj captured)) (Json.reload ρ (.obj published)) = true

instance {ρ : UInt64 → UInt64} {captured published : List (String × Json)} :
    Decidable (RestoreAccepts ρ captured published) := inferInstanceAs (Decidable (_ ∨ _))

/-! ## A rendered configuration -/

/-- What is known of a rendered configuration: its sizes are where the spec put them. -/
structure Sized (spec : VmSpec) (config cpus memory : List (String × Json)) : Prop where
  sorted : MembersSorted config
  cpusAt : config.lookup "cpus" = some (.obj cpus)
  memoryAt : config.lookup "memory" = some (.obj memory)
  cpusSorted : MembersSorted cpus
  memorySorted : MembersSorted memory
  bootVcpus : cpus.lookup "boot_vcpus" = some (uint spec.cpus)
  maxVcpus : cpus.lookup "max_vcpus" = some (uint (spec.cpusMax.getD spec.cpus))
  size : memory.lookup "size" = some (uint spec.memory)
  hotplugSize : ∀ memoryMax, spec.memoryMax = some memoryMax →
    memory.lookup "hotplug_size" = some (uint (memoryMax - spec.memory))

section rendered

variable {i : VmConfigInput} {payload : PayloadConfig} {config : List (String × Json)} {k : String}

theorem lookup_base : (Json.fields (baseFields i payload)).lookup k = ((baseFields i payload).lookup k).join :=
  Json.lookup_fields (by simp [baseFields])

theorem lookup_cpusConfig (spec : VmSpec) : (cpusConfig spec).members.lookup k =
    (List.lookup k [("boot_vcpus", some (uint spec.cpus)),
      ("max_vcpus", some (uint (spec.cpusMax.getD spec.cpus)))]).join :=
  Json.lookup_fields (by simp)

theorem lookup_memoryConfig (spec : VmSpec) : (memoryConfig spec).members.lookup k =
    (List.lookup k [("size", some (uint spec.memory)), ("shared", some (.bool true)),
      ("hotplug_size", spec.memoryMax.map fun memoryMax => uint (memoryMax - spec.memory))]).join :=
  Json.lookup_fields (by simp)

/-- A rendered configuration is the base patched by the overlay and has every required field. -/
theorem canonicalVmConfig_ok (h : canonicalVmConfig i = .ok config) :
    ∃ payload patch, i.payload = .ok payload ∧ overlayMembers i.spec.configOverlay = .ok patch ∧
      config = mergeMembers (Json.fields (baseFields i payload)) patch ∧
      requiredMembers (Json.fields (baseFields i payload)) config "" = .ok () := by
  unfold canonicalVmConfig at h
  obtain ⟨payload, hp, h⟩ := Res.bind_ok h
  obtain ⟨base, hb, h⟩ := Res.bind_ok h
  obtain ⟨patch, ho, h⟩ := Res.bind_ok h
  obtain ⟨_, hv, h⟩ := Res.bind_ok h
  cases h
  have hbase : base = Json.fields (baseFields i payload) := by
    unfold baseVmConfig at hb
    split at hb
    · cases hb
    · cases hb
      rfl
  subst hbase
  refine ⟨payload, patch, hp, ho, rfl, ?_⟩
  obtain ⟨_, hs, _⟩ := Res.bind_ok hv
  unfold requireSubset at hs
  split at hs
  · cases hs
  · rename_i hreq
    obtain ⟨found, hf, hm⟩ := requiredSubset_obj hreq
    cases hf
    exact hm

/-- A required record is found as an object with each of its fields. -/
theorem required_record {base found fields : List (String × Json)} (h : requiredMembers base found "" = .ok ())
    (hk : base.lookup k = some (.obj fields)) : ∃ members path, found.lookup k = some (.obj members) ∧
      requiredMembers fields members path = .ok () := by
  obtain ⟨c, hc, hsub⟩ := requiredMembers_mem h (mem_of_lookup hk)
  obtain ⟨members, rfl, hm⟩ := requiredSubset_obj hsub
  exact ⟨members, _, hc, hm⟩

theorem required_uint {fields members : List (String × Json)} {path : String} {n : Nat}
    (h : requiredMembers fields members path = .ok ()) (hk : fields.lookup k = some (uint n)) :
    members.lookup k = some (uint n) := by
  obtain ⟨c, hc, hsub⟩ := requiredMembers_mem h (mem_of_lookup hk)
  rw [hc, requiredSubset_uint hsub]

/-- The object a patch leaves at a key has its members in order. -/
theorem patched_sorted {base patch members : List (String × Json)} {fields : List (String × Option Json)}
    (hk : base.lookup k = some (.obj (Json.fields fields)))
    (hm : (mergeMembers base patch).lookup k = some (.obj members)) : MembersSorted members := by
  rw [lookup_mergeMembers, hk] at hm
  have hs := @patchAt_sorted k patch (some (.obj (Json.fields fields))) (Json.fields_sorted fields)
  rw [hm] at hs
  exact hs

/-- **What was rendered**: an overlay cannot move the sizes. -/
theorem canonicalVmConfig_sized (h : canonicalVmConfig i = .ok config) :
    ∃ cpus memory, Sized i.spec config cpus memory := by
  obtain ⟨payload, patch, -, -, rfl, hreq⟩ := canonicalVmConfig_ok h
  have hcpus : (Json.fields (baseFields i payload)).lookup "cpus" = some (cpusConfig i.spec) := lookup_base
  have hmemory : (Json.fields (baseFields i payload)).lookup "memory" = some (memoryConfig i.spec) := lookup_base
  obtain ⟨cpus, _, hc, hcreq⟩ := required_record hreq hcpus
  obtain ⟨memory, _, hm, hmreq⟩ := required_record hreq hmemory
  refine ⟨cpus, memory, mergeMembers_sorted (Json.fields_sorted _), hc, hm, patched_sorted hcpus hc,
    patched_sorted hmemory hm, required_uint hcreq ?_, required_uint hcreq ?_, required_uint hmreq ?_,
    fun memoryMax hmax => required_uint hmreq ?_⟩
  · exact lookup_cpusConfig i.spec
  · exact lookup_cpusConfig i.spec
  · exact lookup_memoryConfig i.spec
  · exact (lookup_memoryConfig i.spec).trans (by rw [hmax]; rfl)

end rendered

/-! ## Two renderings of one machine -/

/-- The spec after live resizes. -/
def VmSpec.resized (spec : VmSpec) (cpus memory : Nat) : VmSpec := { spec with cpus := cpus, memory := memory }

def VmConfigInput.resized (i : VmConfigInput) (cpus memory : Nat) : VmConfigInput :=
  { i with spec := i.spec.resized cpus memory }

/-- Where two configurations of one machine agree whatever its sizes are. -/
structure SameButSizes (spec : VmSpec) (config config' cpus cpus' memory memory' : List (String × Json)) : Prop where
  rest : ∀ k, k ≠ "cpus" → k ≠ "memory" → config.lookup k = config'.lookup k
  cpus : ∀ k, k ≠ "boot_vcpus" → k ≠ "max_vcpus" → cpus.lookup k = cpus'.lookup k
  memory : ∀ k, k ≠ "size" → k ≠ "hotplug_size" ∨ spec.memoryMax = none → memory.lookup k = memory'.lookup k

section comparison

variable {i : VmConfigInput} {spec : VmSpec} {ρ : UInt64 → UInt64} {c m : Nat}
  {config config' cpus cpus' memory memory' : List (String × Json)}

/-- The members of a patched record at a key its base leaves out come from the overlay alone. -/
theorem patched_member {base base' patch members members' : List (String × Json)} {k j : String} {v v' : Json}
    (hb : base.lookup k = some v) (hb' : base'.lookup k = some v')
    (hm : (mergeMembers base patch).lookup k = some (.obj members))
    (hm' : (mergeMembers base' patch).lookup k = some (.obj members'))
    (hj : v.members.lookup j = v'.members.lookup j) : members.lookup j = members'.lookup j := by
  have h := @memberAt_patchAt j k patch (some v) (some v') hj
  rw [← hb, ← hb', ← lookup_mergeMembers, ← lookup_mergeMembers, hm, hm'] at h
  exact h

theorem sameButSizes (hV : canonicalVmConfig i = .ok config) (hW : canonicalVmConfig (i.resized c m) = .ok config')
    (sV : Sized i.spec config cpus memory) (sW : Sized (i.spec.resized c m) config' cpus' memory') :
    SameButSizes i.spec config config' cpus cpus' memory memory' := by
  obtain ⟨payload, patch, hp, ho, rfl, -⟩ := canonicalVmConfig_ok hV
  obtain ⟨payload', patch', hp', ho', rfl, -⟩ := canonicalVmConfig_ok hW
  obtain rfl : payload = payload' := Except.ok.inj (hp.symm.trans hp')
  obtain rfl : patch = patch' := Except.ok.inj (ho.symm.trans ho')
  refine ⟨fun k hc hm => ?_, fun k hb hm => ?_, fun k hs hh => ?_⟩
  · rw [lookup_mergeMembers, lookup_mergeMembers, lookup_base, lookup_base]
    simp only [baseFields, List.lookup_cons, beq_eq_false_iff_ne.mpr hc, beq_eq_false_iff_ne.mpr hm]
    rfl
  · refine patched_member lookup_base lookup_base sV.cpusAt sW.cpusAt ?_
    rw [lookup_cpusConfig, lookup_cpusConfig]
    simp [List.lookup_cons, beq_eq_false_iff_ne.mpr hb, beq_eq_false_iff_ne.mpr hm]
  · refine patched_member lookup_base lookup_base sV.memoryAt sW.memoryAt ?_
    rw [lookup_memoryConfig, lookup_memoryConfig]
    simp only [List.lookup_cons, beq_eq_false_iff_ne.mpr hs]
    rcases hh with hh | hmax
    · simp [beq_eq_false_iff_ne.mpr hh]
    · simp [VmConfigInput.resized, VmSpec.resized, hmax]

/-- Two sorted lists of members agree after decoding, on the keys kept, if they agree there before it. -/
theorem reload_filter_eq {l l' : List (String × Json)} {p : String → Bool} (hl : MembersSorted l)
    (hl' : MembersSorted l') (h : ∀ k, p k = true → l.lookup k = l'.lookup k) :
    ((Json.reloadMembers ρ l).filter fun x => p x.1) = (Json.reloadMembers ρ l').filter fun x => p x.1 := by
  refine MembersSorted.ext ((Json.reloadMembers_sorted ρ hl).filter _) ((Json.reloadMembers_sorted ρ hl').filter _) ?_
  intro k
  rw [lookup_filter_key, lookup_filter_key, Json.lookup_reloadMembers, Json.lookup_reloadMembers]
  split
  · rename_i hp
    rw [h k hp]
  · rfl

theorem mapsMatchExcept_reload {l l' : List (String × Json)} {ignored : List String} (hl : MembersSorted l)
    (hl' : MembersSorted l') (h : ∀ k, k ∉ ignored → l.lookup k = l'.lookup k) :
    mapsMatchExcept (Json.reloadMembers ρ l) (Json.reloadMembers ρ l') ignored = true :=
  decide_eq_true <| @reload_filter_eq ρ l l' (fun k => k ∉ ignored) hl hl' fun k hk => h k (of_decide_eq_true hk)

theorem uint_injective {n n' : Nat} (h : uint n = uint n') : n = n' := by
  cases h
  rfl

theorem reload_uint (n : Nat) : Json.reload ρ (uint n) = uint n := by
  simp [uint, Json.reload]

/-- What is left of the comparison between two renderings of one machine: the two ceilings. -/
theorem differsOnly_iff (sV : Sized spec config cpus memory) (sW : Sized (spec.resized c m) config' cpus' memory')
    (same : SameButSizes spec config config' cpus cpus' memory memory') :
    vmconfigDiffersOnlyByLiveResize (Json.reload ρ (.obj config)) (Json.reload ρ (.obj config')) = true ↔
      spec.cpusMax.getD spec.cpus = spec.cpusMax.getD c ∧
        memoryCeiling (Json.reloadMembers ρ memory) = memoryCeiling (Json.reloadMembers ρ memory') := by
  have hrest : eraseMember "memory" (eraseMember "cpus" (Json.reloadMembers ρ config)) =
      eraseMember "memory" (eraseMember "cpus" (Json.reloadMembers ρ config')) := by
    have h := @reload_filter_eq ρ config config' (fun k => k ≠ "memory" && k ≠ "cpus") sV.sorted sW.sorted
      (fun k hk => by
        simp only [ne_eq, Bool.and_eq_true, decide_eq_true_eq] at hk
        exact same.rest k hk.2 hk.1)
    simpa only [eraseMember, List.filter_filter] using h
  have hmax : (Json.reloadMembers ρ cpus).lookup "max_vcpus" = (Json.reloadMembers ρ cpus').lookup "max_vcpus" ↔
      spec.cpusMax.getD spec.cpus = spec.cpusMax.getD c := by
    rw [Json.lookup_reloadMembers, Json.lookup_reloadMembers, sV.maxVcpus, sW.maxVcpus, Option.map_some,
      Option.map_some, reload_uint, reload_uint]
    exact ⟨fun h => uint_injective (Option.some.inj h), fun h => by rw [h]; rfl⟩
  have hcpus : spec.cpusMax.getD spec.cpus = spec.cpusMax.getD c →
      mapsMatchExcept (Json.reloadMembers ρ cpus) (Json.reloadMembers ρ cpus') ["boot_vcpus"] = true := by
    intro heq
    refine mapsMatchExcept_reload sV.cpusSorted sW.cpusSorted fun k hk => ?_
    by_cases hkm : k = "max_vcpus"
    · rw [hkm, sV.maxVcpus, sW.maxVcpus, heq]
      rfl
    · exact same.cpus k (by simpa using hk) hkm
  have hmemory : mapsMatchExcept (Json.reloadMembers ρ memory) (Json.reloadMembers ρ memory')
      ["size", "hotplug_size"] = true := by
    refine mapsMatchExcept_reload sV.memorySorted sW.memorySorted fun k hk => ?_
    simp only [List.mem_cons, List.not_mem_nil, or_false, not_or] at hk
    exact same.memory k hk.1 (.inl hk.2)
  simp only [Json.reload, vmconfigDiffersOnlyByLiveResize, Json.lookup_reloadMembers, sV.cpusAt, sW.cpusAt,
    sV.memoryAt, sW.memoryAt, Option.map_some]
  rw [← Json.lookup_reloadMembers, ← Json.lookup_reloadMembers]
  simp only [hrest, hmemory, decide_true, Bool.true_and, Bool.and_true, Bool.and_eq_true, decide_eq_true_eq, hmax]
  exact ⟨fun h => ⟨h.1.1, h.2⟩, fun h => ⟨⟨h.1, hcpus h.1⟩, h.2⟩⟩

end comparison

/-! ## What the capacity check allows -/

section capacity

variable {name : String} {published : Json} {spec spec' : VmSpec} {capacity : VmConfigCapacity} {c m : Nat}

theorem VmConfigCapacity.check_ok (h : capacity.check name c m = .ok ()) :
    capacity.bootMemory ≤ m ∧ m ≤ capacity.maxMemory := by
  unfold VmConfigCapacity.check at h
  split at h
  · cases h
  split at h
  · cases h
  split at h
  · cases h
  omega

/-- The capacity read from a configuration is bounded by its memory ceiling. -/
theorem publishedVmconfigCapacity_ok (h : publishedVmconfigCapacity name published = .ok capacity) :
    ∃ hotplug, requiredField name published ["memory", "size"] = .ok capacity.bootMemory ∧
      capacityField name published ["memory", "hotplug_size"] = .ok hotplug ∧
      capacity.maxMemory ≤ capacity.bootMemory + hotplug.getD 0 := by
  unfold publishedVmconfigCapacity at h
  obtain ⟨_, -, h⟩ := Res.bind_ok h
  obtain ⟨_, -, h⟩ := Res.bind_ok h
  obtain ⟨bootMemory, hboot, h⟩ := Res.bind_ok h
  obtain ⟨hotplug, hhot, h⟩ := Res.bind_ok h
  cases h
  exact ⟨hotplug, hboot, hhot, Nat.min_le_left _ _⟩

theorem liveResize_ok {r : Resize} (h : liveResize name published spec r = .ok spec') :
    spec' = spec.resized (r.cpus.getD spec.cpus) (r.memory.getD spec.memory) ∧ ∃ capacity,
      publishedVmconfigCapacity name published = .ok capacity ∧ capacity.check name spec'.cpus spec'.memory = .ok () := by
  unfold liveResize at h
  split at h
  · cases h
  · obtain ⟨capacity, hcap, h⟩ := Res.bind_ok h
    obtain ⟨_, hcheck, h⟩ := Res.bind_ok h
    cases h
    exact ⟨rfl, capacity, hcap, hcheck⟩

/-- Live resizes move the two sizes only, to the last ones asked for, which passed the check. -/
theorem liveResizes_ok {rs : List Resize} (h : liveResizes name published spec rs = .ok spec') :
    spec' = spec.resized (finalCpus rs spec.cpus) (finalMemory rs spec.memory) ∧ (rs = [] ∨ ∃ capacity,
      publishedVmconfigCapacity name published = .ok capacity ∧
        capacity.check name spec'.cpus spec'.memory = .ok ()) := by
  induction rs generalizing spec with
  | nil =>
    cases h
    exact ⟨rfl, .inl rfl⟩
  | cons r rest ih =>
    obtain ⟨next, hr, h⟩ := Res.bind_ok h
    obtain ⟨rfl, hcheck⟩ := liveResize_ok hr
    obtain ⟨hspec, hlast⟩ := ih h
    refine ⟨hspec, .inr ?_⟩
    rcases hlast with rfl | hlast
    · cases h
      exact hcheck
    · exact hlast

end capacity

/-! ## When a resized machine can be restored -/

section ceiling

variable {name : String} {spec : VmSpec} {ρ : UInt64 → UInt64} {capacity : VmConfigCapacity} {c m : Nat}
  {config config' cpus cpus' memory memory' : List (String × Json)}

theorem memoryCeiling_eq {l : List (String × Json)} {n : Nat} {hotplug : Option Nat}
    (hsize : l.lookup "size" = some (uint n)) (hhot : l.lookup "hotplug_size" = hotplug.map uint) :
    memoryCeiling l = some (n + hotplug.getD 0) := by
  unfold memoryCeiling
  rw [hsize, hhot]
  cases hotplug <;> rfl

theorem Sized.getPath_memory (s : Sized spec config cpus memory) (k : String) :
    getPath (Json.reload ρ (.obj config)) ["memory", k] = (Json.reloadMembers ρ memory).lookup k := by
  simp only [getPath, Json.reload, Json.members, Json.lookup_reloadMembers, s.memoryAt, Option.map_some]
  cases memory.lookup k <;> rfl

theorem Sized.reload_size (s : Sized spec config cpus memory) :
    (Json.reloadMembers ρ memory).lookup "size" = some (uint spec.memory) := by
  rw [Json.lookup_reloadMembers, s.size, Option.map_some, reload_uint]

theorem Sized.bootMemory (s : Sized spec config cpus memory) {n : Nat}
    (h : requiredField name (Json.reload ρ (.obj config)) ["memory", "size"] = .ok n) : n = spec.memory := by
  simp only [requiredField, capacityField, s.getPath_memory, s.reload_size, uint, Json.asU64] at h
  cases h
  rfl

theorem Sized.hotplug (s : Sized spec config cpus memory) {hotplug : Option Nat}
    (h : capacityField name (Json.reload ρ (.obj config)) ["memory", "hotplug_size"] = .ok hotplug) :
    (Json.reloadMembers ρ memory).lookup "hotplug_size" = hotplug.map uint := by
  simp only [capacityField, s.getPath_memory] at h
  split at h
  · rename_i hnone
    cases h
    exact hnone
  · rename_i v hv
    split at h
    · rename_i n hn
      cases h
      rw [hv]
      cases v with
      | num x => cases x <;> simp_all [Json.asU64, uint]
      | _ => simp [Json.asU64] at hn
    · cases h

/-- The memory ceiling stays where it is when the headroom comes from `memory_max`; headroom that only the overlay
declares moves with the size. -/
theorem memoryCeiling_resized (sV : Sized spec config cpus memory)
    (sW : Sized (spec.resized c m) config' cpus' memory')
    (same : SameButSizes spec config config' cpus cpus' memory memory')
    (hcap : publishedVmconfigCapacity name (Json.reload ρ (.obj config)) = .ok capacity)
    (hcheck : capacity.check name c m = .ok ()) :
    memoryCeiling (Json.reloadMembers ρ memory) = memoryCeiling (Json.reloadMembers ρ memory') ↔
      spec.memoryMax.isSome ∨ m = spec.memory := by
  obtain ⟨hotplug, hboot, hhot, hmax⟩ := publishedVmconfigCapacity_ok hcap
  obtain ⟨hlow, hhigh⟩ := VmConfigCapacity.check_ok hcheck
  have hsize : capacity.bootMemory = spec.memory := sV.bootMemory hboot
  have hV : (Json.reloadMembers ρ memory).lookup "hotplug_size" = hotplug.map uint := sV.hotplug hhot
  have hleft : memoryCeiling (Json.reloadMembers ρ memory) = some (spec.memory + hotplug.getD 0) :=
    memoryCeiling_eq sV.reload_size hV
  cases hmm : spec.memoryMax with
  | none =>
    have hW : (Json.reloadMembers ρ memory').lookup "hotplug_size" = hotplug.map uint := by
      rw [← hV, Json.lookup_reloadMembers, Json.lookup_reloadMembers, same.memory _ (by decide) (.inr hmm)]
    have hright : memoryCeiling (Json.reloadMembers ρ memory') = some (m + hotplug.getD 0) :=
      memoryCeiling_eq sW.reload_size hW
    rw [hleft, hright, Option.some_inj]
    simp only [Option.isSome_none, Bool.false_eq_true, false_or]
    omega
  | some memoryMax =>
    have hhotV : hotplug = some (memoryMax - spec.memory) := by
      rw [Json.lookup_reloadMembers, sV.hotplugSize memoryMax hmm, Option.map_some, reload_uint] at hV
      cases hotplug with
      | none => cases hV
      | some n => rw [← uint_injective (Option.some.inj hV)]
    have hW : (Json.reloadMembers ρ memory').lookup "hotplug_size" = (some (memoryMax - m)).map uint := by
      rw [Json.lookup_reloadMembers, sW.hotplugSize memoryMax hmm, Option.map_some, reload_uint]
      rfl
    have hright : memoryCeiling (Json.reloadMembers ρ memory') = some (m + (memoryMax - m)) :=
      memoryCeiling_eq sW.reload_size hW
    subst hhotV
    rw [hleft, hright, Option.some_inj]
    simp only [Option.getD_some, Option.isSome_some, true_or, iff_true] at hmax ⊢
    omega

end ceiling

/-- Boot, live resizes, warm snapshot, restore: whether the restore accepts the configuration rendered for it. -/
def restoreAfterResizes (ρ : UInt64 → UInt64) (i : VmConfigInput) (rs : List Resize) : Res Bool := do
  let config ← canonicalVmConfig i
  let spec' ← liveResizes i.name (Json.reload ρ (.obj config)) i.spec rs
  let config' ← canonicalVmConfig { i with spec := spec' }
  .ok (decide (RestoreAccepts ρ config config'))

theorem restoreAfterResizes_ok {ρ : UInt64 → UInt64} {i : VmConfigInput} {rs : List Resize} {accepted : Bool}
    (h : restoreAfterResizes ρ i rs = .ok accepted) : ∃ config spec' config', canonicalVmConfig i = .ok config ∧
      liveResizes i.name (Json.reload ρ (.obj config)) i.spec rs = .ok spec' ∧
      canonicalVmConfig { i with spec := spec' } = .ok config' ∧
      (RestoreAccepts ρ config config' ↔ accepted = true) := by
  unfold restoreAfterResizes at h
  obtain ⟨config, hV, h⟩ := Res.bind_ok h
  obtain ⟨spec', hrs, h⟩ := Res.bind_ok h
  obtain ⟨config', hW, h⟩ := Res.bind_ok h
  cases h
  exact ⟨config, spec', config', hV, hrs, hW, decide_eq_true_iff.symm⟩

/-- A machine with four vCPUs and one GiB of memory. -/
def sizedInput (cpusMax memoryMax : Option Nat) (overlay : Option Json) : VmConfigInput where
  name := "dev"
  spec := ⟨4, cpusMax, 2 ^ 30, memoryMax, overlay⟩
  cid := 3
  network := .none
  filesystems := []
  oci := false
  paths := ⟨"/data/disk.qcow2", "/data/seed.img", "/data/config.img", "/run/vsock.sock", "/data/console.log"⟩
  payload := .ok ⟨some "/firmware/CLOUDHV.fd", none, none⟩

-- Headroom that only the overlay declares: grown memory moves the sum of the two fields.
example : restoreAfterResizes id (sizedInput none none (some (.obj [("memory", .obj [("hotplug_size", uint (2 ^ 30))])])))
    [⟨none, some (2 ^ 31)⟩] = .ok false := by decide

end Firestone.Vmm
