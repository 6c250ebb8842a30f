import Firestone.Error
import Firestone.Lib.Words

/-!
# The boot config disk

The host writes the guest's boot configuration to a small disk, a JSON document in a frame with a magic, a version and a
length, padded to whole blocks; the guest's first process reads the beginning of the device and takes the document out
of the frame. `configDisk_readBack` says that it gets the document that was written, and what it takes for one.

Encoding the document as JSON is the serializer's (`InitJson`).
-/

namespace Firestone.Boot

open Firestone.Lib

/-! ## The document -/

inductive InitNetwork
  | dhcp | none
  deriving DecidableEq, Repr

structure InitConfig where
  hostname : String
  entrypoint : List String
  cmd : List String
  env : List String
  workdir : Option String
  user : Option String
  network : InitNetwork
  diskSizeBytes : Nat
  deriving DecidableEq, Repr

/-- The serializer, and the text of its errors. -/
structure InitJson where
  toVec : InitConfig → Except String Bytes
  fromSlice : Bytes → Except String InitConfig

/-! ## The frame -/

def configMagic : Bytes := bytes "FSTNINIT"

def configFormatVersion : Nat := 1

def configHeaderLen : Nat := 16

def maxConfigJsonBytes : Nat := 65536

def configDiskAlignment : Nat := 4096

inductive FrameError
  | tooShort (available : Nat)
  | badMagic
  | unsupportedVersion (found : Nat)
  | lengthTooLarge (declared : Nat)
  | truncated (declared available : Nat)
  | json (source : String)
  deriving DecidableEq, Repr

inductive EncodeError
  | tooLarge (len : Nat)
  | json (source : String)
  deriving DecidableEq, Repr

def EncodeError.display : EncodeError → String
  | .tooLarge len =>
    "config document is " ++ toString len ++ " bytes; the limit is " ++ toString maxConfigJsonBytes
  | .json source => "cannot serialize config document: " ++ source

/-- The framed bytes of a document. -/
def frameOf (doc : Bytes) : Bytes := configMagic ++ leBytes 4 configFormatVersion ++ leBytes 4 doc.length ++ doc

variable (json : InitJson)

def encodeFrame (config : InitConfig) : Except EncodeError Bytes :=
  match json.toVec config with
  | .error source => .error (.json source)
  | .ok doc =>
    if 2 ^ 32 ≤ doc.length then .error (.tooLarge doc.length)
    else if maxConfigJsonBytes < doc.length then .error (.tooLarge doc.length)
    else .ok (frameOf doc)

def readU32Le (bs : Bytes) : Nat := leValue (bs.take 4)

def decodeFrame (bs : Bytes) : Except FrameError InitConfig :=
  if bs.length < configHeaderLen then .error (.tooShort bs.length)
  else
    let header := bs.take configHeaderLen
    let body := bs.drop configHeaderLen
    if header.take 8 ≠ configMagic then .error .badMagic
    else
      let version := readU32Le ((header.take 12).drop 8)
      if version ≠ configFormatVersion then .error (.unsupportedVersion version)
      else
        let declared := readU32Le (header.drop 12)
        if maxConfigJsonBytes < declared then .error (.lengthTooLarge declared)
        else if body.length < declared then .error (.truncated declared body.length)
        else
          match json.fromSlice (body.take declared) with
          | .error source => .error (.json source)
          | .ok config => .ok config

/-! ## The disk -/

/-- The host's disk: the frame, and zeroes up to whole blocks. -/
def buildConfigDisk (config : InitConfig) : Res Bytes :=
  match encodeFrame json config with
  | .error source =>
    .error ((FirestoneError.new .invalidSpec
      ("cannot build the firestone-init config disk: " ++ source.display)).withHint
      "reduce the image entrypoint, cmd and environment")
  | .ok framed =>
    let padded := (framed.length + (configDiskAlignment - 1)) / configDiskAlignment * configDiskAlignment
    .ok (framed ++ List.replicate (max padded configDiskAlignment - framed.length) 0)

/-- How much of the device the guest reads. -/
def readLimit : Nat := configHeaderLen + maxConfigJsonBytes

/-- The guest's `read_config`, of a device with these contents. -/
def readConfig (device : Bytes) : Except FrameError InitConfig := decodeFrame json (device.take readLimit)

/-! ## Reading frames -/

variable {json}

theorem length_frameOf (doc : Bytes) : (frameOf doc).length = configHeaderLen + doc.length := by
  have hmagic : configMagic.length = 8 := by decide
  simp [frameOf, hmagic, configHeaderLen]
  omega

/-- The parts of a framed document. -/
theorem frameOf_parts (doc rest : Bytes) :
    ((frameOf doc ++ rest).take configHeaderLen).take 8 = configMagic ∧
      ((((frameOf doc ++ rest).take configHeaderLen).take 12).drop 8) = leBytes 4 configFormatVersion ∧
      ((frameOf doc ++ rest).take configHeaderLen).drop 12 = leBytes 4 doc.length ∧
      (frameOf doc ++ rest).drop configHeaderLen = doc ++ rest := by
  have hmagic : configMagic.length = 8 := by decide
  have hversion : (configMagic ++ leBytes 4 configFormatVersion).length = 12 := by simp [hmagic]
  have hheader : (configMagic ++ leBytes 4 configFormatVersion ++ leBytes 4 doc.length).length = configHeaderLen := by
    simp [hmagic, configHeaderLen]
  have htake : (frameOf doc ++ rest).take configHeaderLen =
      configMagic ++ leBytes 4 configFormatVersion ++ leBytes 4 doc.length := by
    rw [frameOf, List.append_assoc _ doc rest, ← hheader, List.take_left]
  refine ⟨?_, ?_, ?_, ?_⟩
  · rw [htake, List.append_assoc, ← hmagic, List.take_left]
  · rw [htake, ← hversion, List.take_left, ← hmagic, List.drop_left]
  · rw [htake, ← hversion, List.drop_left]
  · rw [frameOf, List.append_assoc _ doc rest, ← hheader, List.drop_left]

/-- A frame with bytes after it is decoded as its document. -/
theorem decodeFrame_frameOf {doc : Bytes} (hlen : doc.length ≤ maxConfigJsonBytes) (rest : Bytes) :
    decodeFrame json (frameOf doc ++ rest) =
      match json.fromSlice doc with
      | .error source => .error (.json source)
      | .ok config => .ok config := by
  obtain ⟨hmagic, hversion, hlength, hbody⟩ := frameOf_parts doc rest
  have hread : ∀ n, n < 2 ^ 32 → readU32Le (leBytes 4 n) = n := by
    intro n hn
    rw [readU32Le, List.take_of_length_le (by simp), leValue_leBytes (by simpa using hn)]
  have hcap : doc.length < 2 ^ 32 := by
    unfold maxConfigJsonBytes at hlen
    omega
  unfold decodeFrame
  rw [if_neg (by rw [List.length_append, length_frameOf]; omega)]
  simp only [hmagic, hversion, hlength, hbody, hread _ hcap, hread configFormatVersion (by decide)]
  rw [if_neg (by simp), if_neg (by simp), if_neg (by omega), if_neg (by simp), List.take_left]

/-- What is decoded was framed. -/
theorem frameOf_of_decodeFrame {bs : Bytes} {config : InitConfig} (h : decodeFrame json bs = .ok config) :
    ∃ doc rest, bs = frameOf doc ++ rest ∧ doc.length ≤ maxConfigJsonBytes ∧ json.fromSlice doc = .ok config := by
  unfold decodeFrame at h
  split at h
  · cases h
  rename_i hlong
  simp only at h
  split at h
  · cases h
  rename_i hmagic
  rw [not_not] at hmagic
  split at h
  · cases h
  rename_i hversion
  rw [not_not] at hversion
  split at h
  · cases h
  rename_i hcap
  split at h
  · cases h
  rename_i hbody
  split at h
  · cases h
  rename_i config' hjson
  cases h
  have hword : ∀ w : Bytes, w.length = 4 → leBytes 4 (readU32Le w) = w := by
    intro w hw
    have hback := leBytes_leValue w
    rw [hw] at hback
    rw [readU32Le, List.take_of_length_le (Nat.le_of_eq hw), hback]
  have hheader : (bs.take configHeaderLen).length = 16 := by
    rw [List.length_take]
    unfold configHeaderLen at hlong ⊢
    omega
  generalize hh : bs.take configHeaderLen = header at hmagic hversion hcap hbody hjson hheader
  generalize hb : bs.drop configHeaderLen = body at hbody hjson
  have hdeclared : (body.take (readU32Le (header.drop 12))).length = readU32Le (header.drop 12) := by
    rw [List.length_take]
    omega
  refine ⟨body.take (readU32Le (header.drop 12)), body.drop (readU32Le (header.drop 12)), ?_, by omega, hjson⟩
  have hparts : header = header.take 8 ++ (header.take 12).drop 8 ++ header.drop 12 := by
    have h8 : header.take 8 = (header.take 12).take 8 := by rw [List.take_take]; rfl
    rw [h8, List.take_append_drop, List.take_append_drop]
  have hversionBytes : leBytes 4 configFormatVersion = (header.take 12).drop 8 := by
    rw [← hversion, hword]
    simp [hheader]
  have hlengthBytes : leBytes 4 (readU32Le (header.drop 12)) = header.drop 12 := hword _ (by simp [hheader])
  calc bs = bs.take configHeaderLen ++ bs.drop configHeaderLen := (List.take_append_drop _ _).symm
    _ = header ++ body := by rw [hh, hb]
    _ = configMagic ++ leBytes 4 configFormatVersion ++ leBytes 4 (readU32Le (header.drop 12)) ++ body := by
      rw [← hmagic, hversionBytes, hlengthBytes, ← hparts]
    _ = _ := by rw [frameOf, hdeclared, List.append_assoc _ (body.take _), List.take_append_drop]

/-! ## The disk read back -/

theorem encodeFrame_eq {config : InitConfig} {doc : Bytes} (hdoc : json.toVec config = .ok doc) :
    encodeFrame json config =
      if maxConfigJsonBytes < doc.length then .error (.tooLarge doc.length) else .ok (frameOf doc) := by
  unfold encodeFrame
  rw [hdoc]
  simp only
  by_cases hbig : 2 ^ 32 ≤ doc.length
  · rw [if_pos hbig, if_pos (by unfold maxConfigJsonBytes; omega)]
  · rw [if_neg hbig]

/-- The disk is the frame, padded to whole blocks. -/
theorem buildConfigDisk_eq {config : InitConfig} {framed disk : Bytes} (hframed : encodeFrame json config = .ok framed)
    (h : buildConfigDisk json config = .ok disk) :
    ∃ n, disk = framed ++ List.replicate n 0 ∧ 0 < disk.length ∧ configDiskAlignment ∣ disk.length := by
  unfold buildConfigDisk at h
  rw [hframed] at h
  cases h
  refine ⟨_, rfl, ?_⟩
  rw [List.length_append, List.length_replicate]
  generalize framed.length = len
  have hpad : len ≤ (len + (configDiskAlignment - 1)) / configDiskAlignment * configDiskAlignment := by
    unfold configDiskAlignment
    omega
  have hlen : ∀ padded, len ≤ padded → len + (max padded configDiskAlignment - len) = max padded configDiskAlignment := by
    intro padded hle
    omega
  rw [hlen _ hpad]
  refine ⟨by unfold configDiskAlignment; omega, ?_⟩
  rcases Nat.le_total ((len + (configDiskAlignment - 1)) / configDiskAlignment * configDiskAlignment)
    configDiskAlignment with hle | hle
  · exact ⟨1, by rw [Nat.mul_one, Nat.max_eq_right hle]⟩
  · rw [Nat.max_eq_left hle]
    exact Nat.dvd_mul_left _ _

/-- Whatever follows a frame, the guest reads its document. -/
theorem readConfig_frameOf {config : InitConfig} {doc : Bytes} (hround : json.fromSlice doc = .ok config)
    (hlen : doc.length ≤ maxConfigJsonBytes) (rest : Bytes) : readConfig json (frameOf doc ++ rest) = .ok config := by
  have hfit : (frameOf doc).length ≤ readLimit := by
    rw [length_frameOf]
    unfold readLimit
    omega
  rw [readConfig, List.take_append, List.take_of_length_le hfit, decodeFrame_frameOf hlen, hround]

/-- **The config disk.** A disk that is built is whole blocks, and the guest reads the configuration back whatever
follows it; encoding fails exactly for a document above the limit; and whatever bytes are decoded, the result is the
document that a frame at their beginning holds. -/
theorem configDisk_readBack {config : InitConfig} {doc : Bytes} (hdoc : json.toVec config = .ok doc)
    (hround : json.fromSlice doc = .ok config) :
    (∀ disk, buildConfigDisk json config = .ok disk → 0 < disk.length ∧ configDiskAlignment ∣ disk.length ∧
      ∀ padding, readConfig json (disk ++ padding) = .ok config) ∧
    (∀ framed, encodeFrame json config = .ok framed → ∀ padding, readConfig json (framed ++ padding) = .ok config) ∧
    ((∃ e, encodeFrame json config = .error e) ↔ maxConfigJsonBytes < doc.length) ∧
    (∀ bs found, decodeFrame json bs = .ok found ↔
      ∃ doc rest, bs = frameOf doc ++ rest ∧ doc.length ≤ maxConfigJsonBytes ∧ json.fromSlice doc = .ok found) := by
  have hencode := encodeFrame_eq hdoc
  have hframed : ∀ framed, encodeFrame json config = .ok framed → framed = frameOf doc ∧ doc.length ≤ maxConfigJsonBytes := by
    intro framed hf
    rw [hencode] at hf
    split at hf
    · cases hf
    · cases hf
      exact ⟨rfl, by omega⟩
  refine ⟨?_, ?_, ?_, ?_⟩
  · intro disk hdisk
    have hok : ∃ framed, encodeFrame json config = .ok framed := by
      unfold buildConfigDisk at hdisk
      split at hdisk
      · cases hdisk
      · exact ⟨_, ‹_›⟩
    obtain ⟨framed, hf⟩ := hok
    obtain ⟨n, rfl, hpos, hblocks⟩ := buildConfigDisk_eq hf hdisk
    obtain ⟨rfl, hlen⟩ := hframed framed hf
    refine ⟨hpos, hblocks, fun padding => ?_⟩
    rw [List.append_assoc]
    exact readConfig_frameOf hround hlen _
  · intro framed hf padding
    obtain ⟨rfl, hlen⟩ := hframed framed hf
    exact readConfig_frameOf hround hlen padding
  · rw [hencode]
    split
    · exact ⟨fun _ => ‹_›, fun _ => ⟨_, rfl⟩⟩
    · exact ⟨fun ⟨e, he⟩ => (by cases he), fun hbig => absurd hbig ‹_›⟩
  · intro bs found
    constructor
    · exact frameOf_of_decodeFrame
    · rintro ⟨doc', rest, rfl, hlen, hjson⟩
      rw [decodeFrame_frameOf hlen, hjson]

/-- A small configuration. -/
def sampleConfig : InitConfig := ⟨"app", ["/bin/sh"], [], ["PATH=/bin"], none, some "root", .dhcp, 4096⟩

/-- Its document. -/
def sampleDoc : Bytes := bytes ("\x7b\"hostname\":\"app\",\"entrypoint\":[\"/bin/sh\"],\"cmd\":[],\"env\":[\"PATH=/bin\"]," ++
  "\"workdir\":null,\"user\":\"root\",\"network\":\"dhcp\",\"disk_size_bytes\":4096\x7d")

def sampleJson : InitJson where
  toVec config := if config = sampleConfig then .ok sampleDoc else .error "not sampled"
  fromSlice doc := if doc = sampleDoc then .ok sampleConfig else .error "expected value at line 1 column 1"

theorem configDisk_readBack_sample : ∃ disk, buildConfigDisk sampleJson sampleConfig = .ok disk ∧ disk.length = 4096 ∧
    ∀ padding, readConfig sampleJson (disk ++ padding) = .ok sampleConfig := by
  obtain ⟨disk, hdisk, hlen⟩ := Res.exists_ok_any (x := buildConfigDisk sampleJson sampleConfig) (p := fun disk =>
    disk.length = 4096) (by decide +kernel)
  obtain ⟨hread, _⟩ := @configDisk_readBack sampleJson sampleConfig sampleDoc rfl (by decide +kernel)
  exact ⟨disk, hdisk, of_decide_eq_true hlen, (hread disk hdisk).2.2⟩

end Firestone.Boot
