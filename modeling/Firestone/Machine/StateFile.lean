import Firestone.Atomic
import Firestone.State
import Firestone.Lib.Records

/-!
# The state file

`write_from_shim` checks a state, encodes it and replaces `state.json`; `read` takes the file back through the derived
decoder, the two decoders written by hand and the same check.

* `MachineState.toJson`, `MachineState.fromJson` — the document of a state.
* `StateStore.writeFromShim`, `StateStore.read` — the two operations of the store.
* `StateStore.read_written` — what is read after a write: the state with the reason of its last exit decoded from its
  text, if the document fits the limit of the reader.
* `StateStore.read_written_iff` — when this is the state that was written.

The text of a document is made and read by a JSON library, which is a parameter.
-/

namespace Firestone

open Firestone.Lib Firestone.Lib.Json

/-! ## Documents -/

def StateVersion.number : Nat := 1

def u32Bound : Nat := 2 ^ 32

def i32Bound : Nat := 2 ^ 31

def StateVersion.fromJson (v : Json) : Option Unit :=
  (asNat u32Bound v).bind fun version => if version = StateVersion.number then some () else none

def MachineStatus.name : MachineStatus → String
  | .created => "created"
  | .starting => "starting"
  | .running => "running"
  | .stopping => "stopping"
  | .stopped => "stopped"
  | .failed => "failed"

def MachineStatus.fromJson (v : Json) : Option MachineStatus :=
  (asVariant v).bind fun name =>
    [MachineStatus.created, .starting, .running, .stopping, .stopped, .failed].find? fun status => status.name = name

def StateImage.fields : List String := ["ref", "id", "sha256"]

def StateImage.toJson (image : StateImage) : Json :=
  .obj [("ref", .str image.ref), ("id", ofOption .str image.id), ("sha256", ofOption .str image.sha256)]

def StateImage.fromJson (v : Json) : Option StateImage := do
  let ms ← v.record StateImage.fields
  let ref ← requiredField ms "ref" asText
  let id ← optionalField ms "id" asText
  let sha256 ← optionalField ms "sha256" asText
  return ⟨ref, id, sha256⟩

/-- The reason a text stands for. -/
def ExitReason.ofStr (reason : String) : Option ExitReason :=
  if reason = "guest shutdown" then some .guestShutdown
  else if reason = "stale" then some .stale
  else if reason = "host reboot" then some .hostReboot
  else if reason = "" then none
  else some (.failure reason)

def ExitReason.toJson (reason : ExitReason) : Json := .str reason.asStr

def ExitReason.fromJson (v : Json) : Option ExitReason := (asText v).bind ExitReason.ofStr

def LastExit.fields : List String := ["at", "code", "signal", "reason"]

def LastExit.toJson (exit : LastExit) : Json :=
  .obj [("at", .str exit.exitAt), ("code", ofOption ofInt exit.code), ("signal", ofOption ofInt exit.signal),
    ("reason", exit.reason.toJson)]

/-- The fields are read through a record of their own, then checked. -/
def LastExit.fromJson (v : Json) : Option LastExit := do
  let ms ← v.record LastExit.fields
  let exitAt ← requiredField ms "at" asText
  let code ← optionalField ms "code" (asInt i32Bound)
  let signal ← optionalField ms "signal" (asInt i32Bound)
  let reason ← requiredField ms "reason" ExitReason.fromJson
  if code.isSome ∧ signal.isSome then none else some ⟨exitAt, code, signal, reason⟩

def MachineState.fields : List String :=
  ["version", "status", "image", "mac", "cid", "instance_id", "shim_pid", "vmm_pid", "sidecar_pids", "runtime_dir",
    "started_at", "forwards", "degraded", "last_exit"]

def MachineState.toJson (s : MachineState) : Json :=
  .obj [("version", ofNat StateVersion.number), ("status", .str s.status.name), ("image", s.image.toJson),
    ("mac", ofOption .str s.mac), ("cid", ofNat s.cid), ("instance_id", ofOption .str s.instanceId),
    ("shim_pid", ofOption ofNat s.shimPid), ("vmm_pid", ofOption ofNat s.vmmPid),
    ("sidecar_pids", ofNatMap s.sidecarPids), ("runtime_dir", .str s.runtimeDir),
    ("started_at", ofOption .str s.startedAt), ("forwards", .arr (s.forwards.map .str)),
    ("degraded", .arr (s.degraded.map .str)), ("last_exit", ofOption LastExit.toJson s.lastExit)]

def MachineState.fromJson (v : Json) : Option MachineState := do
  let ms ← v.record MachineState.fields
  requiredField ms "version" StateVersion.fromJson
  let status ← requiredField ms "status" MachineStatus.fromJson
  let image ← requiredField ms "image" StateImage.fromJson
  let mac ← optionalField ms "mac" asText
  let cid ← requiredField ms "cid" (asNat u32Bound)
  let instanceId ← optionalField ms "instance_id" asText
  let shimPid ← optionalField ms "shim_pid" (asNat u32Bound)
  let vmmPid ← optionalField ms "vmm_pid" (asNat u32Bound)
  let sidecarPids ← requiredField ms "sidecar_pids" (asNatMap u32Bound)
  let runtimeDir ← requiredField ms "runtime_dir" asText
  let startedAt ← optionalField ms "started_at" asText
  let forwards ← requiredField ms "forwards" (asItems asText)
  let degraded ← requiredField ms "degraded" (asItems asText)
  let lastExit ← optionalField ms "last_exit" LastExit.fromJson
  return ⟨status, image, mac, cid, instanceId, shimPid, vmmPid, sidecarPids, runtimeDir, startedAt, forwards, degraded,
    lastExit⟩

/-! ## What the types hold -/

/-- The integers of the exit have 32 bits. -/
structure LastExit.Typed (exit : LastExit) : Prop where
  code : ∀ n, exit.code = some n → -i32Bound ≤ n ∧ n < i32Bound
  signal : ∀ n, exit.signal = some n → -i32Bound ≤ n ∧ n < i32Bound

/-- The integers of the state have 32 bits and its map is in key order. -/
structure MachineState.Typed (s : MachineState) : Prop where
  cid : s.cid < u32Bound
  shimPid : ∀ n, s.shimPid = some n → n < u32Bound
  vmmPid : ∀ n, s.vmmPid = some n → n < u32Bound
  sidecarPids : ∀ x ∈ s.sidecarPids, x.2 < u32Bound
  sorted : MembersSorted s.sidecarPids
  lastExit : ∀ exit, s.lastExit = some exit → exit.Typed

/-- The values of the source's own type. -/
abbrev TypedState := { s : MachineState // s.Typed }

/-! ## Decoding a document of a state -/

/-- The reason after it was written and read. -/
def ExitReason.reread (reason : ExitReason) : ExitReason := (ExitReason.ofStr reason.asStr).getD reason

def LastExit.reread (exit : LastExit) : LastExit := { exit with reason := exit.reason.reread }

def MachineState.reread (s : MachineState) : MachineState := { s with lastExit := s.lastExit.map LastExit.reread }

/-- A failure whose text is that of a lifecycle reason. -/
def ExitReason.reserved : ExitReason → Bool
  | .failure reason => reason = "guest shutdown" || reason = "stale" || reason = "host reboot"
  | _ => false

theorem ExitReason.ofStr_asStr {reason : ExitReason} (h : reason ≠ .failure "") :
    ExitReason.ofStr reason.asStr = some reason.reread := by
  have hsome : ∃ r, ExitReason.ofStr reason.asStr = some r := by
    cases reason with
    | failure text =>
      have htext : text ≠ "" := fun he => h (by rw [he])
      unfold ExitReason.ofStr ExitReason.asStr
      split_ifs <;> exact ⟨_, rfl⟩
    | _ => exact ⟨_, rfl⟩
  obtain ⟨r, hr⟩ := hsome
  rw [ExitReason.reread, hr, Option.getD_some]

theorem ExitReason.reread_ne (reason : ExitReason) (h : reason ≠ .failure "") : reason.reread ≠ .failure "" := by
  have hr := ExitReason.ofStr_asStr h
  intro he
  rw [he] at hr
  unfold ExitReason.ofStr at hr
  split_ifs at hr with hguest hstale hreboot hempty
  · cases hr
  · cases hr
  · cases hr
  rw [Option.some.injEq, ExitReason.failure.injEq] at hr
  exact hempty hr

theorem ExitReason.reread_eq_iff (reason : ExitReason) : reason.reread = reason ↔ reason.reserved = false := by
  cases reason with
  | failure text =>
    simp only [ExitReason.reread, ExitReason.ofStr, ExitReason.asStr, ExitReason.reserved]
    by_cases hguest : text = "guest shutdown"
    · simp [hguest]
    · by_cases hstale : text = "stale"
      · simp [hstale]
      · by_cases hreboot : text = "host reboot"
        · simp [hreboot]
        · by_cases hempty : text = "" <;> simp [hguest, hstale, hreboot, hempty]
  | _ => simp [ExitReason.reread, ExitReason.ofStr, ExitReason.asStr, ExitReason.reserved]

theorem StateVersion.fromJson_number : StateVersion.fromJson (ofNat StateVersion.number) = some () := by decide

theorem MachineStatus.fromJson_name (status : MachineStatus) :
    MachineStatus.fromJson (.str status.name) = some status := by
  cases status <;> decide

theorem nullable_str (x : Option String) : nullable asText (ofOption .str x) = some x :=
  nullable_ofOption fun s _ => ⟨by simp, asText_str s⟩

theorem nullable_u32 {x : Option Nat} (h : ∀ n, x = some n → n < u32Bound) :
    nullable (asNat u32Bound) (ofOption ofNat x) = some x :=
  nullable_ofOption fun n hn => ⟨by simp [ofNat], asNat_ofNat (h n hn)⟩

theorem nullable_i32 {x : Option Int} (h : ∀ n, x = some n → -i32Bound ≤ n ∧ n < i32Bound) :
    nullable (asInt i32Bound) (ofOption ofInt x) = some x := by
  refine nullable_ofOption fun n hn => ⟨?_, asInt_ofInt (h n hn).1 (h n hn).2⟩
  unfold ofInt
  split <;> simp

theorem asItems_str (l : List String) : asItems asText (.arr (l.map .str)) = some l :=
  asItems_map fun s _ => asText_str s

theorem StateImage.fromJson_toJson (image : StateImage) : StateImage.fromJson image.toJson = some image := by
  have hrecord : image.toJson.record StateImage.fields = some image.toJson.members := by
    rw [StateImage.toJson, record, if_pos (by simp [StateImage.fields])]
    rfl
  simp only [StateImage.fromJson, hrecord]
  simp [StateImage.toJson, members, requiredField, optionalField, nullable_str, List.lookup_cons]

theorem LastExit.validate_iff (exit : LastExit) : exit.validate = .ok () ↔
    ¬ (exit.code.isSome ∧ exit.signal.isSome) ∧ exit.reason ≠ .failure "" := by
  unfold LastExit.validate
  split_ifs <;> simp_all

/-- An exit with a valid reason and not both a code and a signal is decoded, its reason read from its text. -/
theorem LastExit.fromJson_toJson {exit : LastExit} (htyped : exit.Typed) (hvalid : exit.validate = .ok ()) :
    LastExit.fromJson exit.toJson = some exit.reread := by
  obtain ⟨hboth, hreason⟩ := (LastExit.validate_iff exit).mp hvalid
  have hrecord : exit.toJson.record LastExit.fields = some exit.toJson.members := by
    rw [LastExit.toJson, record, if_pos (by simp [LastExit.fields])]
    rfl
  have hread : ExitReason.fromJson exit.reason.toJson = some exit.reason.reread := ExitReason.ofStr_asStr hreason
  simp only [LastExit.fromJson, hrecord]
  simp only [members, LastExit.toJson, requiredField, optionalField, Option.bind_eq_bind, Option.bind_some,
    List.lookup_cons, BEq.rfl, asText_str, String.reduceBEq, nullable_i32 htyped.code, nullable_i32 htyped.signal, hread, hboth,
    if_false, LastExit.reread]

/-- The check in its three parts. -/
theorem MachineState.validate_iff (s : MachineState) : s.validate = .ok () ↔ s.image.validate = .ok () ∧
    (∀ exit, s.lastExit = some exit → exit.validate = .ok ()) ∧
    ¬ (s.shimPid = some 0 ∨ s.vmmPid = some 0 ∨ (s.sidecarPids.any fun x => x.2 == 0) = true) := by
  constructor
  · intro h
    obtain ⟨_, himage, hrest⟩ := Res.bind_ok h
    have hpids : ∀ {u : Unit}, (if s.shimPid = some 0 ∨ s.vmmPid = some 0 ∨ (s.sidecarPids.any fun x => x.2 == 0) = true
        then Except.error (invalidState "process ids in machine state must be nonzero") else Except.ok ()) = Except.ok u →
        ¬ (s.shimPid = some 0 ∨ s.vmmPid = some 0 ∨ (s.sidecarPids.any fun x => x.2 == 0) = true) := by
      intro u hif hbad
      rw [if_pos hbad] at hif
      cases hif
    cases he : s.lastExit with
    | none =>
      rw [he] at hrest
      exact ⟨himage, fun exit h => (by cases h), hpids hrest⟩
    | some exit =>
      rw [he] at hrest
      obtain ⟨_, hexit, hlast⟩ := Res.bind_ok hrest
      refine ⟨himage, ?_, hpids hlast⟩
      rintro _ ⟨⟩
      exact hexit
  · rintro ⟨himage, hexit, hpids⟩
    unfold MachineState.validate
    rw [himage]
    simp only [bind, Except.bind, if_neg hpids]
    cases he : s.lastExit with
    | none => rfl
    | some exit => simp only [hexit exit he]

theorem MachineState.fromJson_toJson {s : MachineState} (htyped : s.Typed) (hvalid : s.validate = .ok ()) :
    MachineState.fromJson s.toJson = some s.reread := by
  have hexit : nullable LastExit.fromJson (ofOption LastExit.toJson s.lastExit) = some s.reread.lastExit := by
    cases he : s.lastExit with
    | none => simp [MachineState.reread, he, ofOption, nullable]
    | some exit =>
      have hdec := LastExit.fromJson_toJson (htyped.lastExit exit he) (((MachineState.validate_iff s).mp hvalid).2.1 exit he)
      have hne : ∀ v, LastExit.toJson exit = v → nullable LastExit.fromJson v = (LastExit.fromJson v).map some := by
        rintro _ rfl
        rfl
      rw [ofOption, hne _ rfl, hdec]
      simp [MachineState.reread, he]
  have hrecord : s.toJson.record MachineState.fields = some s.toJson.members := by
    rw [MachineState.toJson, record, if_pos (by simp [MachineState.fields])]
    rfl
  refine bind_of_some hrecord ?_
  refine bind_of_some (requiredField_some rfl StateVersion.fromJson_number) ?_
  refine bind_of_some (requiredField_some rfl (MachineStatus.fromJson_name s.status)) ?_
  refine bind_of_some (requiredField_some rfl (StateImage.fromJson_toJson s.image)) ?_
  refine bind_of_some (optionalField_some rfl (nullable_str s.mac)) ?_
  refine bind_of_some (requiredField_some rfl (asNat_ofNat htyped.cid)) ?_
  refine bind_of_some (optionalField_some rfl (nullable_str s.instanceId)) ?_
  refine bind_of_some (optionalField_some rfl (nullable_u32 htyped.shimPid)) ?_
  refine bind_of_some (optionalField_some rfl (nullable_u32 htyped.vmmPid)) ?_
  refine bind_of_some (requiredField_some rfl (asNatMap_ofNatMap htyped.sorted htyped.sidecarPids)) ?_
  refine bind_of_some (requiredField_some rfl (asText_str s.runtimeDir)) ?_
  refine bind_of_some (optionalField_some rfl (nullable_str s.startedAt)) ?_
  refine bind_of_some (requiredField_some rfl (asItems_str s.forwards)) ?_
  refine bind_of_some (requiredField_some rfl (asItems_str s.degraded)) ?_
  refine bind_of_some (optionalField_some rfl hexit) ?_
  rfl

/-- The state that is read passes the check again. -/
theorem MachineState.validate_reread {s : MachineState} (hvalid : s.validate = .ok ()) : s.reread.validate = .ok () := by
  obtain ⟨himage, hexit, hpids⟩ := (MachineState.validate_iff s).mp hvalid
  refine (MachineState.validate_iff _).mpr ⟨himage, ?_, hpids⟩
  intro exit' he'
  obtain ⟨exit, he, rfl⟩ := Option.map_eq_some_iff.mp he'
  obtain ⟨hboth, hreason⟩ := (LastExit.validate_iff exit).mp (hexit exit he)
  exact (LastExit.validate_iff _).mpr ⟨hboth, ExitReason.reread_ne _ hreason⟩

theorem MachineState.reread_eq_iff (s : MachineState) :
    s.reread = s ↔ ∀ exit, s.lastExit = some exit → exit.reason.reserved = false := by
  have hfield : s.reread = s ↔ s.lastExit.map LastExit.reread = s.lastExit := by
    constructor
    · intro h
      exact congrArg MachineState.lastExit h
    · intro h
      rw [MachineState.reread, h]
  rw [hfield]
  cases s.lastExit with
  | none => simp
  | some exit =>
    have hexit : exit.reread = exit ↔ exit.reason.reread = exit.reason := by
      constructor
      · intro h
        exact congrArg LastExit.reason h
      · intro h
        rw [LastExit.reread, h]
    simp [hexit, ExitReason.reread_eq_iff]

/-! ## The store -/

/-- The JSON library, as far as the state file needs it. -/
structure StateJson where
  toVecPretty : Json → Bytes
  fromSlice : Bytes → Option Json

def maxMachineStateBytes : Nat := 1024 * 1024

/-- `bounded::read_to_end`: at most one byte above the limit is read. -/
def boundedReadToEnd (contents : Bytes) (limit : Nat) : Option Bytes :=
  let bytes := contents.take (limit + 1)
  if limit < bytes.length then none else some bytes

theorem boundedReadToEnd_eq (contents : Bytes) (limit : Nat) :
    boundedReadToEnd contents limit = if contents.length ≤ limit then some contents else none := by
  unfold boundedReadToEnd
  simp only [List.length_take]
  by_cases h : contents.length ≤ limit
  · rw [if_neg (by omega), if_pos h, List.take_of_length_le (by omega)]
  · rw [if_pos (by omega), if_neg h]

namespace StateStore

variable (json : StateJson)

def newline : UInt8 := 10

/-- `serialize_json`: the document of a state and a newline. -/
def serializeJson (s : MachineState) : Bytes := json.toVecPretty s.toJson ++ [newline]

/-- `StateStore::write_from_shim`: the atomic replacement it makes of the file. -/
def writeFromShim (umask : UInt32) (s : MachineState) : Res Atomic.Call := do
  s.validate
  .ok ⟨serializeJson json s, none, umask⟩

def readFile (path : String) : Option Atomic.File → Res MachineState
  | none => .error ((FirestoneError.new .generic ("cannot read machine state " ++ path)).withHint
      "check that the machine state file exists and is a readable regular file")
  | some file => do
    let bytes ← match boundedReadToEnd file.bytes maxMachineStateBytes with
      | some bytes => .ok bytes
      | none => .error ((FirestoneError.new .generic
          ("machine state " ++ path ++ " exceeds the " ++ toString maxMachineStateBytes ++ " byte limit")).withHint
          "replace the oversized state.json with valid machine state")
    let state ← match (json.fromSlice bytes).bind MachineState.fromJson with
      | some state => .ok state
      | none => .error ((FirestoneError.new .generic ("cannot parse machine state " ++ path)).withHint
          "inspect state.json for corruption or an unsupported version")
    state.validate
    .ok state

/-- `StateStore::read`. -/
def read (path : String) (fs : Atomic.Fs) : Res MachineState := readFile json path fs.read

section roundTrip

variable {json} {path : String} {s : MachineState}

/-- What is read from the document of a valid state. -/
theorem readFile_document {mode : UInt32} (htyped : s.Typed) (hvalid : s.validate = .ok ())
    (hjson : json.fromSlice (serializeJson json s) = some s.toJson)
    (hfits : (serializeJson json s).length ≤ maxMachineStateBytes) :
    readFile json path (some ⟨serializeJson json s, mode⟩) = .ok s.reread := by
  have hdecode : (json.fromSlice (serializeJson json s)).bind MachineState.fromJson = some s.reread := by
    rw [hjson, Option.bind_some, MachineState.fromJson_toJson htyped hvalid]
  simp only [readFile, boundedReadToEnd_eq, if_pos hfits, bind, Except.bind]
  rw [hdecode]
  simp only [MachineState.validate_reread hvalid]

theorem readFile_oversized (path : String) (mode : UInt32) (hbig : ¬ (serializeJson json s).length ≤ maxMachineStateBytes) :
    ∃ e, readFile json path (some ⟨serializeJson json s, mode⟩) = .error e := by
  simp only [readFile, boundedReadToEnd_eq, if_neg hbig]
  exact ⟨_, rfl⟩

/-- After a write that succeeded, the file is the document. -/
theorem read_written (path : String) {umask : UInt32} {call : Atomic.Call} {original : Atomic.Fs} {sys : Atomic.Sys Unit}
    (hcall : writeFromShim json umask s = .ok call)
    (hrun : Reachable (Atomic.step fun _ : Unit => call) anyStep (Atomic.Initial original) sys)
    (hdone : sys.pcs () = .returned true) :
    s.validate = .ok () ∧
      read json path sys.fs = readFile json path (some ⟨serializeJson json s, call.published.mode⟩) := by
  obtain ⟨_, hvalid, hpure⟩ := Res.bind_ok hcall
  cases hpure
  obtain ⟨_, hfile⟩ := (Atomic.reachable_inv hrun).returned fun _ => hdone
  exact ⟨hvalid, by rw [read, hfile]; rfl⟩

/-- **State survives its file** exactly when its document fits the reader and the reason of its last exit is no failure
with the text of a lifecycle reason. -/
theorem read_written_iff {s : TypedState} {umask : UInt32} {call : Atomic.Call} {original : Atomic.Fs}
    {sys : Atomic.Sys Unit} (hjson : json.fromSlice (serializeJson json s.val) = some s.val.toJson)
    (hcall : writeFromShim json umask s.val = .ok call)
    (hrun : Reachable (Atomic.step fun _ : Unit => call) anyStep (Atomic.Initial original) sys)
    (hdone : sys.pcs () = .returned true) :
    read json path sys.fs = .ok s.val ↔ (serializeJson json s.val).length ≤ maxMachineStateBytes ∧
      ∀ exit, s.val.lastExit = some exit → exit.reason.reserved = false := by
  obtain ⟨hvalid, hread⟩ := read_written path hcall hrun hdone
  rw [hread, ← MachineState.reread_eq_iff]
  by_cases hfits : (serializeJson json s.val).length ≤ maxMachineStateBytes
  · rw [readFile_document s.property hvalid hjson hfits, Except.ok.injEq]
    exact ⟨fun h => ⟨hfits, h⟩, fun h => h.2⟩
  · obtain ⟨e, he⟩ := readFile_oversized path call.published.mode hfits
    rw [he]
    exact ⟨fun h => (by cases h), fun h => absurd h.1 hfits⟩

end roundTrip

/-! ## Two states and their files -/

/-- A machine that has stopped for a reason. -/
def stoppedState (reason : ExitReason) : MachineState where
  status := .stopped
  image := ⟨"docker.io/library/alpine:3.20", none, none⟩
  mac := none
  cid := 3
  instanceId := none
  shimPid := none
  vmmPid := none
  sidecarPids := []
  runtimeDir := "/run/firestone/app"
  startedAt := none
  forwards := []
  degraded := []
  lastExit := some ⟨"2025-01-01T00:00:00Z", none, none, reason⟩

theorem stoppedState_typed (reason : ExitReason) : (stoppedState reason).Typed where
  cid := by
    change 3 < 2 ^ 32
    decide
  shimPid := fun n hn => by cases hn
  vmmPid := fun n hn => by cases hn
  sidecarPids := fun x hx => by cases hx
  sorted := List.Pairwise.nil
  lastExit := by
    rintro _ ⟨⟩
    exact ⟨fun n hn => (by cases hn), fun n hn => (by cases hn)⟩

/-- The text of its document. -/
def stoppedText (reason : String) : Bytes :=
  bytes ("\x7b\n  \"version\": 1,\n  \"status\": \"stopped\",\n  \"image\": \x7b\n" ++
    "    \"ref\": \"docker.io/library/alpine:3.20\",\n    \"id\": null,\n    \"sha256\": null\n  \x7d,\n" ++
    "  \"mac\": null,\n  \"cid\": 3,\n  \"instance_id\": null,\n  \"shim_pid\": null,\n  \"vmm_pid\": null,\n" ++
    "  \"sidecar_pids\": \x7b\x7d,\n  \"runtime_dir\": \"/run/firestone/app\",\n  \"started_at\": null,\n" ++
    "  \"forwards\": [],\n  \"degraded\": [],\n  \"last_exit\": \x7b\n    \"at\": \"2025-01-01T00:00:00Z\",\n" ++
    "    \"code\": null,\n    \"signal\": null,\n    \"reason\": \"" ++ reason ++ "\"\n  \x7d\n\x7d")

/-- The library at this document. -/
def stoppedJson (reason : ExitReason) : StateJson where
  toVecPretty _ := stoppedText reason.asStr
  fromSlice bytes := if bytes = stoppedText reason.asStr ++ [newline] then some (stoppedState reason).toJson else none

theorem stoppedJson_fromSlice (reason : ExitReason) : (stoppedJson reason).fromSlice
    (serializeJson (stoppedJson reason) (stoppedState reason)) = some (stoppedState reason).toJson := by
  simp [serializeJson, stoppedJson]

/-- An empty directory, before the write. -/
def emptyDir : Atomic.Fs := ⟨fun _ => ⟨[], 0⟩, none, none, 0⟩

def writing : Atomic.Sys Unit := ⟨emptyDir, fun _ => .opening⟩

theorem writing_initial : Atomic.Initial emptyDir writing :=
  ⟨rfl, fun _ => rfl, fun _ h => (by cases h), fun _ h => (by cases h)⟩

/-- The steps of a write that succeeds. -/
def wholeWrite (length : Nat) : List (Unit × Atomic.Outcome) :=
  [((), .done 0), ((), .done 0), ((), .done 0), ((), .done length), ((), .done 0), ((), .done 0), ((), .done 0)]

theorem exists_written {call : Atomic.Call} (h : (run (Atomic.step fun _ : Unit => call) writing
    (wholeWrite call.bytes.length)).any (fun sys => sys.pcs () == .returned true) = true) :
    ∃ sys, Reachable (Atomic.step fun _ : Unit => call) anyStep (Atomic.Initial emptyDir) sys ∧
      sys.pcs () = .returned true := by
  obtain ⟨sys, hsys, hcheck⟩ := (Option.any_eq_true _ _).mp h
  exact ⟨sys, reachable_of_run writing_initial hsys, by simpa using hcheck⟩

/-- A failure whose text is `stale` is read back as the lifecycle reason. -/
theorem read_written_stale : ¬ ∀ (json : StateJson) (s : TypedState) (umask : UInt32) (call : Atomic.Call)
    (sys : Atomic.Sys Unit), json.fromSlice (serializeJson json s.val) = some s.val.toJson →
    writeFromShim json umask s.val = .ok call →
    Reachable (Atomic.step fun _ : Unit => call) anyStep (Atomic.Initial emptyDir) sys →
    sys.pcs () = .returned true → read json "state.json" sys.fs = .ok s.val := by
  intro h
  obtain ⟨call, hcall, hrun⟩ := Res.exists_ok_any (x := writeFromShim (stoppedJson (.failure "stale")) 0o022
    (stoppedState (.failure "stale"))) (p := fun call => (run (Atomic.step fun _ : Unit => call) writing
      (wholeWrite call.bytes.length)).any fun sys => sys.pcs () == .returned true) (by decide +kernel)
  obtain ⟨sys, hreach, hdone⟩ := exists_written hrun
  have hjson := stoppedJson_fromSlice (.failure "stale")
  have hread := h _ ⟨_, stoppedState_typed _⟩ _ call sys hjson hcall hreach hdone
  obtain ⟨hvalid, hfile⟩ := read_written "state.json" hcall hreach hdone
  rw [hfile, readFile_document (stoppedState_typed _) hvalid hjson (by decide +kernel), Except.ok.injEq] at hread
  exact absurd hread (by decide)

theorem read_written_iff_failure : ∃ sys : Atomic.Sys Unit,
    read (stoppedJson (.failure "vmm exited")) "state.json" sys.fs = .ok (stoppedState (.failure "vmm exited")) := by
  obtain ⟨call, hcall, hrun⟩ := Res.exists_ok_any (x := writeFromShim (stoppedJson (.failure "vmm exited")) 0o022
    (stoppedState (.failure "vmm exited"))) (p := fun call => (run (Atomic.step fun _ : Unit => call) writing
      (wholeWrite call.bytes.length)).any fun sys => sys.pcs () == .returned true) (by decide +kernel)
  obtain ⟨sys, hreach, hdone⟩ := exists_written hrun
  refine ⟨sys, (@read_written_iff (stoppedJson (.failure "vmm exited")) "state.json" ⟨_, stoppedState_typed _⟩ 0o022 call
    emptyDir sys (stoppedJson_fromSlice _) hcall hreach hdone).mpr ⟨by decide +kernel, ?_⟩⟩
  rintro _ ⟨⟩
  decide

end StateStore

end Firestone
