import Firestone.Lib.Decimal
import Firestone.Oci.Layers
import Mathlib.Algebra.Ring.Int.Defs

/-!
# Tar streams

How a layer's decompressed bytes are read and how members are written.

* `HeaderOps` — what is used of a tar header, whose layout belongs to the `tar` crate.
* `parsePaxRecords`, `recordBytes`, `filterExtensions` — extended headers.
* `readMember` — one member with its extension headers; `decodeAt` — all members of a stream.
* `Cursor` — the restartable reader of one layer.
-/

namespace Firestone.Oci

open Firestone.Lib

/-! ## Headers -/

/-- One tar block. -/
abbrev Block := { b : Bytes // b.length = 512 }

def Block.isZero (block : Block) : Bool := block.1.all (· == 0)

def zeros (n : Nat) : Bytes := List.replicate n 0

/-- The operations of `tar::Header`, on the block a header stands for. A failed one gives nothing. -/
structure HeaderOps where
  entryType : Block → EntryType
  entrySize : Block → Option Nat
  pathBytes : Block → Bytes
  linkNameBytes : Block → Option Bytes
  cksum : Block → Option UInt32
  setEntryType : Block → EntryType → Block
  setSize : Block → Nat → Block
  setLinkNameLiteral : Block → Bytes → Option Block
  setCksum : Block → Block
  newUstar : Block
  setPath : Block → String → Option Block
  setUsername : Block → String → Option Block
  setGroupname : Block → String → Option Block
  setMode : Block → UInt32 → Block
  setUid : Block → Nat → Block
  setGid : Block → Nat → Block
  setMtime : Block → Nat → Block

/-- The bytes of a block with the checksum field blanked. -/
def blanked (block : Block) : Bytes := block.1.take 148 ++ List.replicate 8 0x20 ++ block.1.drop 156

/-- Verifies a header checksum against both the unsigned and the signed sum. -/
def checksumMatches (block : Block) (stored : UInt32) : Bool :=
  let unsigned := ((blanked block).map (·.toNat)).sum
  let signed := ((blanked block).map fun b => if b.toNat < 128 then (b.toNat : Int) else b.toNat - 256).sum
  unsigned == stored.toNat || signed == (if stored.toNat < 2 ^ 31 then (stored.toNat : Int) else stored.toNat - 2 ^ 32)

/-- A PAX or GNU extension header captured verbatim. -/
structure ExtensionHeader where
  header : Block
  data : Bytes
  deriving DecidableEq

/-- One tar member with its extension headers already read. -/
structure TarMember where
  header : Block
  extensions : List ExtensionHeader
  path : Bytes
  link : Option Bytes
  entryType : EntryType
  dataSize : Nat
  ordinal : Nat
  deriving DecidableEq

/-- Largest PAX or GNU extension payload accepted for a single member. -/
def maxExtensionBytes : Nat := 1024 * 1024

def EntryType.isExtension : EntryType → Bool
  | .gnuLongName | .gnuLongLink | .xHeader | .xGlobalHeader => true
  | _ => false

/-- Trims the NUL padding GNU long-name payloads carry. -/
def trimNul (data : Bytes) : Bytes := data.takeWhile (· ≠ 0)

/-! ## Extended headers -/

/-- Splits a PAX payload into its records without the framing. -/
@[grind =] def parsePaxRecordsFrom : Nat → Bytes → Res (List Bytes)
  | _, [] => .ok []
  | 0, _ :: _ => .ok []
  | fuel + 1, rest@(_ :: _) =>
    match rest.idxOf? 0x20 with
    | none => .error (layerError "a PAX extended header record has no length prefix" repullHint)
    | some space =>
      match parseDecimal (2 ^ 64) (rest.take space) with
      | none => .error (layerError "a PAX extended header record has an unreadable length" repullHint)
      | some length =>
        if length ≤ space + 1 ∨ rest.length < length then
          .error (layerError "a PAX extended header record has an out-of-range length" repullHint)
        else do
          let records ← parsePaxRecordsFrom fuel (rest.drop length)
          return (rest.take (length - 1)).drop (space + 1) :: records

/-- Every record takes at least one byte. -/
def parsePaxRecords (data : Bytes) : Res (List Bytes) := parsePaxRecordsFrom data.length data

/-- Extracts one PAX record value by key. -/
def paxValue (records : List Bytes) (key : Bytes) : Option Bytes :=
  records.findSome? fun record =>
    (record.idxOf? 0x3D).bind fun separator =>
      if record.take separator = key then some (record.drop (separator + 1)) else none

/-- Re-serializes one PAX record with its self-referential length prefix. -/
def recordBytes (record : Bytes) : Bytes := decimal (selfLength record.length) ++ 0x20 :: record ++ [0x0A]

/-- What stands before the first equals sign. -/
def recordKey (record : Bytes) : Bytes := record.takeWhile (· ≠ 0x3D)

/-- The record contradicts a repaired header. -/
def droppedRecord (promoted : Bool) (record : Bytes) : Bool :=
  recordKey record = bytes "linkpath" || (promoted && recordKey record = bytes "size")

section ops

variable (ops : HeaderOps)

/-- Drops the extension records a repaired header would contradict. -/
def filterExtension (promoted : Bool) (extension : ExtensionHeader) : Res (List ExtensionHeader) :=
  match ops.entryType extension.header with
  | .gnuLongLink => .ok []
  | .xHeader => do
    let records ← parsePaxRecords extension.data
    let data := (records.filter fun record => !droppedRecord promoted record).flatMap recordBytes
    if data.isEmpty then return []
    else return [⟨ops.setCksum (ops.setSize extension.header data.length), data⟩]
  | _ => .ok [extension]

def filterExtensions (promoted : Bool) : List ExtensionHeader → Res (List ExtensionHeader)
  | [] => .ok []
  | extension :: rest => do
    let kept ← filterExtension ops promoted extension
    let others ← filterExtensions promoted rest
    return kept ++ others

/-- Writes one extension header plus its padded payload. -/
def writeExtension (extension : ExtensionHeader) : Bytes :=
  extension.header.1 ++ extension.data ++ zeros (paddingFor extension.data.length)

/-! ## Reading -/

/-- What a decompressor yields; `broken` when it ends in a read error. -/
structure Stream where
  bytes : Bytes
  broken : Bool
  deriving DecidableEq

def readError : FirestoneError :=
  (FirestoneError.new .dependency "cannot read an OCI layer").withHint "re-pull the image and merge it again"

def truncatedHint : String := "re-pull the image; the layer tar is truncated"

/-- The error of a read that the stream cannot satisfy. -/
def Stream.short {α : Type} (s : Stream) (label message : String) : Res α :=
  if s.broken then .error readError else .error (layerError ("layer " ++ label ++ " " ++ message) truncatedHint)

/-- Reads exactly one block; nothing is a clean end of stream. -/
def Stream.readBlock (label : String) (s : Stream) : Res (Option Block × Stream) :=
  if h : (s.bytes.take 512).length = 512 then .ok (some ⟨s.bytes.take 512, h⟩, { s with bytes := s.bytes.drop 512 })
  else if s.bytes.isEmpty && !s.broken then .ok (none, s)
  else s.short label "ends inside a tar header"

/-- Reads `size` bytes plus the block padding that follows them. -/
def Stream.readExactPadded (label : String) (size : Nat) (s : Stream) : Res (Bytes × Stream) :=
  if s.bytes.length < size then s.short label "is truncated inside an entry"
  else if s.bytes.length < size + paddingFor size then s.short label "ends inside entry padding"
  else .ok (s.bytes.take size, { s with bytes := s.bytes.drop (size + paddingFor size) })

/-- The names that the extension headers read so far give to the next member. -/
structure ExtensionNames where
  longName : Option Bytes
  longLink : Option Bytes
  paxPath : Option Bytes
  paxLink : Option Bytes
  deriving DecidableEq

def ExtensionNames.empty : ExtensionNames := ⟨none, none, none, none⟩

/-- A later PAX header takes the place of an earlier one, also where it has no record. -/
def ExtensionNames.read (names : ExtensionNames) (entryType : EntryType) (data : Bytes) : Res ExtensionNames :=
  match entryType with
  | .gnuLongName => .ok { names with longName := some (trimNul data) }
  | .gnuLongLink => .ok { names with longLink := some (trimNul data) }
  | .xHeader => do
    let records ← parsePaxRecords data
    return { names with paxPath := paxValue records (bytes "path"), paxLink := paxValue records (bytes "linkpath") }
  | _ => .ok names

def ExtensionNames.path (names : ExtensionNames) (header : Block) : Bytes :=
  (names.paxPath.or names.longName).getD (ops.pathBytes header)

def ExtensionNames.link (names : ExtensionNames) (header : Block) : Option Bytes :=
  (names.paxLink.or names.longLink).or (ops.linkNameBytes header)

/-- The type and the size of a header block that can be read. -/
def checkHeader (label : String) (block : Block) : Res (EntryType × Nat) :=
  match ops.cksum block with
  | none => .error (layerError ("layer " ++ label ++ " has an unreadable header checksum") repullHint)
  | some stored =>
    if !checksumMatches block stored then
      .error (layerError ("layer " ++ label ++ " has a header checksum mismatch") repullHint)
    else if ops.entryType block = .gnuSparse then
      .error (layerError ("layer " ++ label ++ " holds a GNU sparse entry")
        "rebuild the image without sparse tar entries")
    else match ops.entrySize block with
      | none => .error (layerError ("layer " ++ label ++ " has an unreadable entry size") repullHint)
      | some size => .ok (ops.entryType block, size)

/-- Reads the next member header, consuming any extension headers first. -/
@[grind =] def readMemberFrom (label : String) (ordinal : Nat) :
    Nat → List ExtensionHeader → ExtensionNames → Stream → Res (Option TarMember × Stream)
  | 0, _, _, s => .ok (none, s)
  | fuel + 1, extensions, names, s => do
    match ← s.readBlock label with
    | (none, s) =>
      if extensions.isEmpty then return (none, s)
      else .error (layerError ("layer " ++ label ++ " ends after an extension header") truncatedHint)
    | (some block, s) =>
      if Block.isZero block then return (none, s)
      else do
        let (entryType, size) ← checkHeader ops label block
        if entryType.isExtension then
          if size > maxExtensionBytes then
            .error (capError ("layer " ++ label ++ " has an extension header above " ++ toString maxExtensionBytes ++ " bytes"))
          else do
            let (data, s) ← s.readExactPadded label size
            let names ← names.read entryType data
            -- a global header is stepped over and not kept
            let extensions := if entryType = .xGlobalHeader then extensions else extensions ++ [⟨block, data⟩]
            readMemberFrom label ordinal fuel extensions names s
        else
          return (some ⟨block, extensions, names.path ops block, names.link ops block, entryType, size, ordinal⟩, s)

/-- Every header takes a block, so the length of the stream bounds their number. -/
def readMember (label : String) (ordinal : Nat) (s : Stream) : Res (Option TarMember × Stream) :=
  readMemberFrom ops label ordinal (s.bytes.length + 1) [] .empty s

/-- One member with its payload and the bytes its headers take. -/
structure TarItem where
  member : TarMember
  payload : Bytes
  headerBytes : Nat
  deriving DecidableEq

/-- A stream read to its end: the members, what is left after the end, and the error met, if any. -/
structure Decoded where
  items : List TarItem
  trailingBytes : Nat
  rest : Stream
  failure : Option FirestoneError
  deriving DecidableEq

def Decoded.cons (item : TarItem) (d : Decoded) : Decoded := { d with items := item :: d.items }

/-- Reads members and steps over their payloads until the end of the archive. -/
@[grind =] def decodeFrom (label : String) : Nat → Nat → Stream → Decoded
  | 0, _, s => ⟨[], 0, s, none⟩
  | fuel + 1, ordinal, s =>
    match readMember ops label ordinal s with
    | .error e => ⟨[], 0, s, some e⟩
    | .ok (none, s') => ⟨[], s.bytes.length - s'.bytes.length, s', none⟩
    | .ok (some member, s') =>
      match s'.readExactPadded label member.dataSize with
      | .error e => ⟨[⟨member, s'.bytes, s.bytes.length - s'.bytes.length⟩], 0, s', some e⟩
      | .ok (payload, s'') =>
        (decodeFrom label fuel (ordinal + 1) s'').cons ⟨member, payload, s.bytes.length - s'.bytes.length⟩

def decodeAt (label : String) (ordinal : Nat) (s : Stream) : Decoded :=
  decodeFrom ops label (s.bytes.length + 1) ordinal s

/-! ## Layers -/

/-- A layer blob that can be opened more than once, each time over the same bytes. -/
structure LayerSource where
  label : String
  stream : Res Stream

/-- The label of a layer in errors. -/
def LayerSource.cursorLabel (source : LayerSource) (index : Nat) : String :=
  source.label ++ " (index " ++ toString index ++ ")"

/-- What pass one sees of a member. -/
def TarItem.view (item : TarItem) : Member :=
  ⟨item.member.path, item.member.link, item.member.entryType, item.member.dataSize, item.headerBytes⟩

/-- The layer as its reader decodes it. -/
def LayerSource.contents (source : LayerSource) (index : Nat) : Decoded :=
  match source.stream with
  | .error e => ⟨[], 0, ⟨[], false⟩, some e⟩
  | .ok s => decodeAt ops (source.cursorLabel index) 0 s

def LayerSource.decode (source : LayerSource) (index : Nat) : DecodedLayer :=
  let contents := source.contents ops index
  ⟨source.label, contents.items.map (·.view), contents.trailingBytes, contents.failure⟩

/-- A restartable forward reader over one layer's stream. -/
structure Cursor where
  index : Nat
  source : LayerSource
  reader : Option Stream
  nextOrdinal : Nat
  pendingData : Option Nat

namespace Cursor

def new (index : Nat) (source : LayerSource) : Cursor := ⟨index, source, none, 0, none⟩

variable (c : Cursor)

def label : String := c.source.cursorLabel c.index

def reopen : Res Cursor := do
  let s ← c.source.stream
  return { c with reader := some s, nextOrdinal := 0, pendingData := none }

def readerMut : Res Stream :=
  match c.reader with
  | some s => .ok s
  | none => .error ((FirestoneError.new .dependency "an OCI layer reader is not open").withHint
      "report this as a firestone bug")

def takePending : Res Nat :=
  match c.pendingData with
  | some size => .ok size
  | none => .error (layerError ("layer " ++ c.label ++ " has no entry payload pending") "report this as a firestone bug")

/-- Discards the current member's payload. -/
def skipData : Res Cursor := do
  let size ← c.takePending
  let s ← c.readerMut
  let (_, s) ← s.readExactPadded c.label size
  return { c with reader := some s, pendingData := none }

/-- Streams the current member's payload; the caller writes the padding. -/
def copyData : Res (Bytes × Cursor) := do
  let size ← c.takePending
  let s ← c.readerMut
  if s.bytes.length < size ∧ s.broken then
    .error ((FirestoneError.new .dependency "cannot copy an OCI layer entry").withHint "re-pull the image and merge it again")
  else do
    let (payload, s) ← s.readExactPadded c.label size
    return (payload, { c with reader := some s, pendingData := none })

/-- Opens the layer before the first read. -/
def opened : Res Cursor := if c.reader.isNone then c.reopen else .ok c

/-- Leaves a payload that nobody has read. -/
def settled : Res Cursor := if c.pendingData.isSome then c.skipData else .ok c

def readHeader : Res (Option TarMember × Cursor) := do
  let c ← c.opened
  let c ← c.settled
  let s ← c.readerMut
  match ← readMember ops c.label c.nextOrdinal s with
  | (none, s) => return (none, { c with reader := some s })
  | (some member, s) =>
    return (some member,
      { c with reader := some s, nextOrdinal := c.nextOrdinal + 1, pendingData := some member.dataSize })

/-- Reads on until the member with the ordinal. -/
@[grind =] def seekFrom (ordinal : Nat) : Nat → Cursor → Res (TarMember × Cursor)
  | 0, c => .error (layerError ("layer " ++ c.label ++ " ended before entry " ++ toString ordinal)
      "re-pull the image and merge it again")
  | fuel + 1, c => do
    match ← c.readHeader ops with
    | (none, c) => .error (layerError ("layer " ++ c.label ++ " ended before entry " ++ toString ordinal)
        "re-pull the image and merge it again")
    | (some member, c) =>
      if member.ordinal = ordinal then return (member, c)
      else seekFrom ordinal fuel (← c.skipData)

/-- Positions the cursor on the member with the given ordinal. -/
def seekTo (ordinal : Nat) : Res (TarMember × Cursor) := do
  let c ← if c.reader.isNone || c.nextOrdinal > ordinal then c.reopen else .ok c
  c.seekFrom ops ordinal (ordinal + 1)

end Cursor

end ops

end Firestone.Oci
