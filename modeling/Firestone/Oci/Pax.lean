import Firestone.Oci.TarReading
import Firestone.Oci.Ustar

/-!
# What POSIX pax makes of a stream

`read_header` gives a member the names of the first `path` and `linkpath` records of its last extended header, and the
size of its header block. POSIX says that of all records in force the last one counts: those of the global headers met so
far, then those of the extended headers before the member; and a `size` record takes the place of the header's size.

* `paxRecords_exact` — records that are written are read back, and a repair drops exactly those of two keys.
* `RawMember.posix` — the names and the size that POSIX gives; `posixItems` reads a stream with these sizes.
* `Agrees` — when they are those of the code; `posix_eq_values_iff` says so for a member.
* `decodeAt_posix_iff` — the members of a stream.
-/

namespace Firestone.Oci

open Firestone.Lib

/-! ## Records -/

/-- **PAX records**: the length that a record counts itself with is the least one, and reached; serialized records are read
as they were; and a repair keeps exactly the records of other keys. -/
theorem paxRecords_exact (ops : HeaderOps) :
    (∀ n, lengthWith n (selfLength n) = selfLength n ∧
      (∀ length, lengthWith n length = length → selfLength n ≤ length) ∧
      ∀ rounds, 3 ≤ rounds → settle (lengthWith n) rounds (n + 2) = selfLength n) ∧
    (∀ records : List Bytes, (records.flatMap recordBytes).length < 2 ^ 64 →
      parsePaxRecords (records.flatMap recordBytes) = .ok records) ∧
    (∀ (promoted : Bool) (records : ExtensionHeader → List Bytes) (es : List ExtensionHeader),
      (∀ e ∈ es, e.data.length < 2 ^ 64) →
      (∀ e ∈ es, ops.entryType e.header = .xHeader → parsePaxRecords e.data = .ok (records e)) →
      ∃ parts, filterExtensions ops promoted es = .ok parts.flatten ∧
        List.Forall₂ (fun e kept => KeptOf ops promoted e (records e) kept) es parts) := by
  refine ⟨fun n => ⟨selfLength_fixed n, ?_, ?_⟩, ?_, ?_⟩
  · intro length hlength
    exact selfLength_le (Nat.le_of_eq hlength)
  · intro rounds hrounds
    exact settle_of_fixed hrounds (selfLength_fixed n)
  · intro records hfits
    exact parsePaxRecords_flatMap hfits
  · intro promoted records es hlen hparse
    exact filterExtensions_repaired hlen hparse

/-- A path with a space, a link target and a size. -/
def sampleRecords : List Bytes := [bytes "path=a b", bytes "linkpath=c", bytes "size=7"]

def sampleHeader : ExtensionHeader where
  header := Ustar.ops.setEntryType Ustar.ops.newUstar .xHeader
  data := sampleRecords.flatMap recordBytes

theorem paxRecords_exact_sample : parsePaxRecords (sampleRecords.flatMap recordBytes) = .ok sampleRecords ∧
    ∃ parts, filterExtensions Ustar.ops true [sampleHeader] = .ok parts.flatten ∧
      List.Forall₂ (fun e kept => KeptOf Ustar.ops true e sampleRecords kept) [sampleHeader] parts := by
  obtain ⟨-, hround, hkeep⟩ := paxRecords_exact Ustar.ops
  have hfits : (sampleRecords.flatMap recordBytes).length < 2 ^ 64 := by decide
  have hread := hround sampleRecords hfits
  refine ⟨hread, hkeep true (fun _ => sampleRecords) [sampleHeader] ?_ ?_⟩
  · intro e he
    rw [List.mem_singleton.mp he]
    exact hfits
  · intro e he _
    rw [List.mem_singleton.mp he]
    exact hread

/-- The value of a record, if this is its key. -/
def recordValue (key record : Bytes) : Option Bytes :=
  (record.idxOf? 0x3D).bind fun separator =>
    if record.take separator = key then some (record.drop (separator + 1)) else none

def values (key : Bytes) (records : List Bytes) : List Bytes := records.filterMap (recordValue key)

theorem paxValue_eq_head? (records : List Bytes) (key : Bytes) : paxValue records key = (values key records).head? :=
  (List.head?_filterMap ..).symm

theorem values_append (key : Bytes) (l l' : List Bytes) : values key (l ++ l') = values key l ++ values key l' :=
  List.filterMap_append

def headerRecords (e : ExtensionHeader) : List Bytes := (parsePaxRecords e.data).toOption.getD []

/-- The headers of a member as they stand in the stream, global ones included. -/
structure RawMember where
  extensions : List ExtensionHeader
  header : Block
  headerSize : Nat
  deriving DecidableEq

/-- The names and the size of a member. -/
structure Values where
  path : Bytes
  link : Option Bytes
  size : Option Nat
  deriving DecidableEq

section ops

variable (ops : HeaderOps)

def headersOf (type : EntryType) (es : List ExtensionHeader) : List ExtensionHeader :=
  es.filter fun e => ops.entryType e.header = type

/-- The records of all extended headers before a member. -/
def localRecords (es : List ExtensionHeader) : List Bytes := (headersOf ops .xHeader es).flatMap headerRecords

def globalRecords (es : List ExtensionHeader) : List Bytes := (headersOf ops .xGlobalHeader es).flatMap headerRecords

/-- The records of the last extended header. -/
def lastRecords (es : List ExtensionHeader) : List Bytes := ((headersOf ops .xHeader es).getLast?.map headerRecords).getD []

/-- The text of the last GNU header of a type. -/
def longText (type : EntryType) (es : List ExtensionHeader) : Option Bytes :=
  (headersOf ops type es).getLast?.map fun e => trimNul e.data

/-- The records in force for a member after some global ones. -/
def inForce (globals : List Bytes) (raw : RawMember) : List Bytes :=
  globals ++ globalRecords ops raw.extensions ++ localRecords ops raw.extensions

/-- The name without extended headers. -/
def RawMember.plainPath (raw : RawMember) : Bytes :=
  (longText ops .gnuLongName raw.extensions).getD (ops.pathBytes raw.header)

def RawMember.plainLink (raw : RawMember) : Option Bytes :=
  (longText ops .gnuLongLink raw.extensions).or (ops.linkNameBytes raw.header)

/-- What POSIX pax gives a member. -/
def RawMember.posix (globals : List Bytes) (raw : RawMember) : Values where
  path := ((values (bytes "path") (inForce ops globals raw)).getLast?).getD (raw.plainPath ops)
  link := ((values (bytes "linkpath") (inForce ops globals raw)).getLast?).or (raw.plainLink ops)
  size := match (values (bytes "size") (inForce ops globals raw)).getLast? with
    | some text => parseDecimal (2 ^ 64) text
    | none => some raw.headerSize

/-- The headers before the next member and its own. -/
def readRawFrom (label : String) : Nat → List ExtensionHeader → Stream → Res (Option RawMember × Stream)
  | 0, _, s => .ok (none, s)
  | fuel + 1, extensions, s => do
    match ← s.readBlock label with
    | (none, s) => return (none, s)
    | (some block, s) =>
      if Block.isZero block then return (none, s)
      else do
        let (entryType, size) ← checkHeader ops label block
        if entryType.isExtension then do
          let (data, s) ← s.readExactPadded label size
          readRawFrom label fuel (extensions ++ [⟨block, data⟩]) s
        else return (some ⟨extensions, block, size⟩, s)

def readRaw (label : String) (s : Stream) : Res (Option RawMember × Stream) :=
  readRawFrom ops label (s.bytes.length + 1) [] s

/-- The members of a stream as a conforming reader sees them: it steps over payloads of the sizes that POSIX gives. -/
def posixFrom (label : String) : Nat → List Bytes → Stream → List Values
  | 0, _, _ => []
  | fuel + 1, globals, s =>
    match readRaw ops label s with
    | .ok (some raw, s) =>
      raw.posix ops globals :: match (raw.posix ops globals).size with
        | none => []
        | some size => match s.readExactPadded label size with
          | .ok (_, s) => posixFrom label fuel (globals ++ globalRecords ops raw.extensions) s
          | .error _ => []
    | _ => []

def posixItems (label : String) (s : Stream) : List Values := posixFrom ops label (s.bytes.length + 1) [] s

/-- The headers of a stream whose payloads have the sizes of the header blocks, each with the records of the global headers
before them. -/
def rawFrom (label : String) : Nat → List Bytes → Stream → List (List Bytes × RawMember)
  | 0, _, _ => []
  | fuel + 1, globals, s =>
    match readRaw ops label s with
    | .ok (some raw, s) =>
      (globals, raw) :: match s.readExactPadded label raw.headerSize with
        | .ok (_, s) => rawFrom label fuel (globals ++ globalRecords ops raw.extensions) s
        | .error _ => []
    | _ => []

def rawItems (label : String) (s : Stream) : List (List Bytes × RawMember) := rawFrom ops label (s.bytes.length + 1) [] s

/-! ## Agreement -/

/-- The records of a name: the first and the last one of the last extended header are the same; where that has none, there
is none in force either, or it gives the plain name. -/
def NameAgrees (key : Bytes) (globals : List Bytes) (raw : RawMember) (plain : Option Bytes) : Prop :=
  if values key (lastRecords ops raw.extensions) = [] then
    values key (inForce ops globals raw) = [] ∨ (values key (inForce ops globals raw)).getLast? = plain
  else (values key (lastRecords ops raw.extensions)).head? = (values key (lastRecords ops raw.extensions)).getLast?

/-- A size record in force gives the size of the header. -/
def SizeAgrees (globals : List Bytes) (raw : RawMember) : Prop :=
  ∀ text, (values (bytes "size") (inForce ops globals raw)).getLast? = some text →
    parseDecimal (2 ^ 64) text = some raw.headerSize

structure Agrees (globals : List Bytes) (raw : RawMember) : Prop where
  path : NameAgrees ops (bytes "path") globals raw (some (raw.plainPath ops))
  link : NameAgrees ops (bytes "linkpath") globals raw (raw.plainLink ops)
  size : SizeAgrees ops globals raw

end ops

/-- What the code gives a member. -/
def TarMember.values (m : TarMember) : Values := ⟨m.path, m.link, some m.dataSize⟩

/-- The first value of the last part, or else `plain`, is the last value of the whole. -/
theorem head?_or_eq_iff {α : Type} {before last : List α} {plain : Option α} :
    last.head?.or plain = (before ++ last).getLast?.or plain ↔
      if last = [] then before ++ last = [] ∨ (before ++ last).getLast? = plain else last.head? = last.getLast? := by
  split
  · rename_i hlast
    subst hlast
    rw [List.append_nil, List.head?_nil, Option.none_or]
    cases hbefore : before.getLast? with
    | none => simp [List.getLast?_eq_none_iff.mp hbefore]
    | some x =>
      have hne : before ≠ [] := by
        rintro rfl
        cases hbefore
      rw [Option.some_or]
      simp only [hne, false_or]
      exact eq_comm
  · rename_i hlast
    obtain ⟨x, hx⟩ := Option.isSome_iff_exists.mp (List.isSome_head?.mpr hlast)
    obtain ⟨y, hy⟩ := Option.isSome_iff_exists.mp (List.getLast?_isSome.mpr hlast)
    rw [List.getLast?_append_of_ne_nil _ hlast, hx, hy, Option.some_or, Option.some_or]

section agreement

variable {ops : HeaderOps}

theorem headersOf_concat (type : EntryType) (es : List ExtensionHeader) (e : ExtensionHeader) :
    headersOf ops type (es ++ [e]) = if ops.entryType e.header = type then headersOf ops type es ++ [e]
      else headersOf ops type es := by
  rw [headersOf, headersOf, List.filter_append]
  by_cases h : ops.entryType e.header = type
  · simp [h]
  · simp [h]

/-- The records of the last extended header are the last of all. -/
theorem localRecords_eq (es : List ExtensionHeader) : ∃ earlier, localRecords ops es = earlier ++ lastRecords ops es := by
  unfold localRecords lastRecords
  rcases List.eq_nil_or_concat (headersOf ops .xHeader es) with h | ⟨init, e, h⟩
  · exact ⟨[], by rw [h]; rfl⟩
  · refine ⟨init.flatMap headerRecords, ?_⟩
    rw [h, List.concat_eq_append, List.getLast?_concat, List.flatMap_append]
    simp

theorem lastRecords_concat (es : List ExtensionHeader) (e : ExtensionHeader) :
    lastRecords ops (es ++ [e]) = if ops.entryType e.header = .xHeader then headerRecords e else lastRecords ops es := by
  rw [lastRecords, headersOf_concat]
  split
  · rw [List.getLast?_concat]
    rfl
  · rfl

theorem longText_concat (type : EntryType) (es : List ExtensionHeader) (e : ExtensionHeader) :
    longText ops type (es ++ [e]) = if ops.entryType e.header = type then some (trimNul e.data) else longText ops type es := by
  rw [longText, headersOf_concat]
  split
  · rw [List.getLast?_concat]
    rfl
  · rfl

variable (ops) in
/-- What the reader keeps of the extension headers. -/
structure NamesOf (es : List ExtensionHeader) (names : ExtensionNames) : Prop where
  longName : names.longName = longText ops .gnuLongName es
  longLink : names.longLink = longText ops .gnuLongLink es
  paxPath : names.paxPath = (values (bytes "path") (lastRecords ops es)).head?
  paxLink : names.paxLink = (values (bytes "linkpath") (lastRecords ops es)).head?

theorem namesOf_concat {es : List ExtensionHeader} {e : ExtensionHeader} {names names' : ExtensionNames}
    (h : NamesOf ops es names) (hread : names.read (ops.entryType e.header) e.data = .ok names') :
    NamesOf ops (es ++ [e]) names' := by
  obtain ⟨hname, hlink, hpath, hpaxLink⟩ := h
  by_cases hx : ops.entryType e.header = .xHeader
  · rw [hx] at hread
    obtain ⟨records, hparse, hnames⟩ := Res.bind_ok hread
    cases hnames
    have hrecords : headerRecords e = records := by rw [headerRecords, hparse]; rfl
    refine ⟨?_, ?_, ?_, ?_⟩
    · simpa [longText_concat, hx] using hname
    · simpa [longText_concat, hx] using hlink
    · rw [lastRecords_concat, if_pos hx, hrecords, ← paxValue_eq_head?]
    · rw [lastRecords_concat, if_pos hx, hrecords, ← paxValue_eq_head?]
  · have hlast : lastRecords ops (es ++ [e]) = lastRecords ops es := by rw [lastRecords_concat, if_neg hx]
    by_cases hlong : ops.entryType e.header = .gnuLongName
    · rw [hlong] at hread
      cases hread
      exact ⟨by simp [longText_concat, hlong], by simpa [longText_concat, hlong] using hlink, by rw [hlast]; exact hpath,
        by rw [hlast]; exact hpaxLink⟩
    by_cases hlonglink : ops.entryType e.header = .gnuLongLink
    · rw [hlonglink] at hread
      cases hread
      exact ⟨by simpa [longText_concat, hlonglink] using hname, by simp [longText_concat, hlonglink],
        by rw [hlast]; exact hpath, by rw [hlast]; exact hpaxLink⟩
    · have hsame : names' = names := by
        unfold ExtensionNames.read at hread
        split at hread
        · exact absurd ‹_› hlong
        · exact absurd ‹_› hlonglink
        · exact absurd ‹_› hx
        · cases hread
          rfl
      subst hsame
      exact ⟨by rw [longText_concat, if_neg hlong]; exact hname, by rw [longText_concat, if_neg hlonglink]; exact hlink,
        by rw [hlast]; exact hpath, by rw [hlast]; exact hpaxLink⟩

/-- A member that is read, and the headers it is read from. -/
theorem readRawFrom_of_readMemberFrom {label : String} {ordinal : Nat} {m : TarMember} {s' : Stream} :
    ∀ {fuel : Nat} {acc es : List ExtensionHeader} {names : ExtensionNames} {s : Stream}, NamesOf ops es names →
    acc = es.filter (fun e => ops.entryType e.header ≠ .xGlobalHeader) →
    readMemberFrom ops label ordinal fuel acc names s = .ok (some m, s') →
    ∃ es' names', readRawFrom ops label fuel es s = .ok (some ⟨es', m.header, m.dataSize⟩, s') ∧
      NamesOf ops es' names' ∧ m.extensions = es'.filter (fun e => ops.entryType e.header ≠ .xGlobalHeader) ∧
      m.path = names'.path ops m.header ∧ m.link = names'.link ops m.header := by
  intro fuel
  induction fuel with
  | zero =>
    intro acc es names s _ _ h
    cases h
  | succ fuel ih =>
    intro acc es names s hnames hacc h
    obtain ⟨⟨block, s₁⟩, hblock, h⟩ := Res.bind_ok h
    cases block with
    | none =>
      simp only at h
      split at h <;> cases h
    | some block =>
      simp only at h
      split at h
      · cases h
      rename_i hzero
      obtain ⟨⟨entryType, size⟩, hcheck, h⟩ := Res.bind_ok h
      have htype := (readable_of_checkHeader (Bool.eq_false_iff.mpr hzero) hcheck).type
      simp only at h
      rw [readRawFrom, hblock]
      simp only [bind, Except.bind, hzero, hcheck]
      split at h
      · rename_i hext
        split at h
        · cases h
        obtain ⟨⟨data, s₂⟩, hdata, h⟩ := Res.bind_ok h
        obtain ⟨names₁, hread, h⟩ := Res.bind_ok h
        have hnext : NamesOf ops (es ++ [⟨block, data⟩]) names₁ := by
          refine namesOf_concat hnames ?_
          rw [htype]
          exact hread
        simp only [hext, hdata]
        refine ih hnext ?_ h
        rw [List.filter_append, ← hacc]
        split
        · rename_i hglobal
          simp [htype, hglobal]
        · rename_i hglobal
          simp [htype, hglobal]
      · rename_i hext
        cases h
        simp only [hext]
        exact ⟨es, names, rfl, hnames, hacc, rfl, rfl⟩

variable (ops) in
/-- A member as the code reads it from its headers. -/
structure ReadFrom (raw : RawMember) (m : TarMember) : Prop where
  header : m.header = raw.header
  size : m.dataSize = raw.headerSize
  extensions : m.extensions = raw.extensions.filter fun e => ops.entryType e.header ≠ .xGlobalHeader
  path : m.path = ((values (bytes "path") (lastRecords ops raw.extensions)).head?).getD (raw.plainPath ops)
  link : m.link = ((values (bytes "linkpath") (lastRecords ops raw.extensions)).head?).or (raw.plainLink ops)

theorem readRaw_of_readMember {label : String} {ordinal : Nat} {s s' : Stream} {m : TarMember}
    (h : readMember ops label ordinal s = .ok (some m, s')) :
    ∃ raw, readRaw ops label s = .ok (some raw, s') ∧ ReadFrom ops raw m := by
  have hempty : NamesOf ops [] .empty := ⟨rfl, rfl, rfl, rfl⟩
  obtain ⟨es, names, hraw, hnames, hextensions, hpath, hlink⟩ := readRawFrom_of_readMemberFrom hempty rfl h
  refine ⟨_, hraw, rfl, rfl, hextensions, ?_, ?_⟩
  · rw [hpath, ExtensionNames.path, hnames.paxPath, hnames.longName]
    cases (values (bytes "path") (lastRecords ops es)).head? <;> rfl
  · rw [hlink, ExtensionNames.link, hnames.paxLink, hnames.longLink, Option.or_assoc]
    rfl

/-- The values in force end with those of the last extended header. -/
theorem values_inForce (key : Bytes) (globals : List Bytes) (raw : RawMember) :
    ∃ before, values key (inForce ops globals raw) = before ++ values key (lastRecords ops raw.extensions) := by
  obtain ⟨earlier, hlocal⟩ := @localRecords_eq ops raw.extensions
  refine ⟨values key (globals ++ globalRecords ops raw.extensions ++ earlier), ?_⟩
  rw [inForce, hlocal, ← List.append_assoc, values_append]

theorem nameAgrees_iff {key : Bytes} {globals : List Bytes} {raw : RawMember} {plain : Option Bytes} :
    NameAgrees ops key globals raw plain ↔ (values key (lastRecords ops raw.extensions)).head?.or plain =
      (values key (inForce ops globals raw)).getLast?.or plain := by
  obtain ⟨before, hvalues⟩ := @values_inForce ops key globals raw
  rw [NameAgrees, hvalues, head?_or_eq_iff]

theorem sizeAgrees_iff {globals : List Bytes} {raw : RawMember} :
    SizeAgrees ops globals raw ↔ (raw.posix ops globals).size = some raw.headerSize := by
  unfold SizeAgrees RawMember.posix
  cases (values (bytes "size") (inForce ops globals raw)).getLast? with
  | none => simp
  | some text => simp

theorem getD_eq_getD_iff {α : Type} {x y : Option α} {a : α} : x.getD a = y.getD a ↔ x.or (some a) = y.or (some a) := by
  cases x <;> cases y <;> simp

/-- The code gives a member what POSIX does exactly when its records agree. -/
theorem posix_eq_values_iff {raw : RawMember} {m : TarMember} (h : ReadFrom ops raw m) (globals : List Bytes) :
    raw.posix ops globals = m.values ↔ Agrees ops globals raw := by
  have hpath : (raw.posix ops globals).path = m.path ↔
      NameAgrees ops (bytes "path") globals raw (some (raw.plainPath ops)) := by
    rw [nameAgrees_iff, h.path, ← getD_eq_getD_iff]
    exact eq_comm
  have hlink : (raw.posix ops globals).link = m.link ↔ NameAgrees ops (bytes "linkpath") globals raw (raw.plainLink ops) := by
    rw [nameAgrees_iff, h.link]
    exact eq_comm
  have hsize : (raw.posix ops globals).size = some m.dataSize ↔ SizeAgrees ops globals raw := by
    rw [sizeAgrees_iff, h.size]
  constructor
  · intro heq
    exact ⟨hpath.mp (by rw [heq]; rfl), hlink.mp (by rw [heq]; rfl), hsize.mp (by rw [heq]; rfl)⟩
  · rintro ⟨hp, hl, hs⟩
    rw [TarMember.values, ← hpath.mpr hp, ← hlink.mpr hl, ← hsize.mpr hs]

/-! ## What is written -/

variable (ops) in
/-- The path that a conforming reader gives a member whose extension headers are copied out. -/
def TarMember.writtenPath (m : TarMember) : Bytes := (RawMember.posix ops [] ⟨m.extensions, m.header, m.dataSize⟩).path

theorem headersOf_filter {type : EntryType} (htype : type ≠ .xGlobalHeader) (es : List ExtensionHeader) :
    headersOf ops type (es.filter fun e => ops.entryType e.header ≠ .xGlobalHeader) = headersOf ops type es := by
  unfold headersOf
  rw [List.filter_filter]
  refine List.filter_congr fun e _ => ?_
  by_cases h : ops.entryType e.header = type
  · simp [h, htype]
  · simp [h]

theorem headersOf_global_filter (es : List ExtensionHeader) :
    headersOf ops .xGlobalHeader (es.filter fun e => ops.entryType e.header ≠ .xGlobalHeader) = [] := by
  unfold headersOf
  rw [List.filter_filter]
  exact List.filter_eq_nil_iff.mpr fun e _ => by simp

/-- A reader of the written headers gets the path of the code. -/
theorem writtenPath_of_agrees {raw : RawMember} {m : TarMember} (h : ReadFrom ops raw m) {globals : List Bytes}
    (hagrees : NameAgrees ops (bytes "path") globals raw (some (raw.plainPath ops))) : m.writtenPath ops = m.path := by
  have hlocal : localRecords ops m.extensions = localRecords ops raw.extensions := by
    rw [localRecords, h.extensions, headersOf_filter (by nofun), localRecords]
  have hglobal : globalRecords ops m.extensions = [] := by
    rw [globalRecords, h.extensions, headersOf_global_filter, List.flatMap_nil]
  have hplain : RawMember.plainPath ops ⟨m.extensions, m.header, m.dataSize⟩ = raw.plainPath ops := by
    rw [RawMember.plainPath, longText, h.extensions, headersOf_filter (by nofun), h.header, RawMember.plainPath, longText]
  have hall : values (bytes "path") (inForce ops globals raw) =
      values (bytes "path") (globals ++ globalRecords ops raw.extensions) ++
        values (bytes "path") (localRecords ops raw.extensions) :=
    values_append ..
  have hwritten : m.writtenPath ops =
      (values (bytes "path") (localRecords ops raw.extensions)).getLast?.getD (raw.plainPath ops) := by
    rw [TarMember.writtenPath, RawMember.posix, hplain, inForce, hglobal, hlocal]
    rfl
  rw [hwritten, h.path, getD_eq_getD_iff, nameAgrees_iff.mp hagrees, hall]
  by_cases hnone : values (bytes "path") (localRecords ops raw.extensions) = []
  · -- no record of its own: the last header has none either, and the name in force is the plain one
    obtain ⟨earlier, hrecords⟩ := @localRecords_eq ops raw.extensions
    have hlast : values (bytes "path") (lastRecords ops raw.extensions) = [] := by
      rw [hrecords, values_append] at hnone
      exact (List.append_eq_nil_iff.mp hnone).2
    have hplainForce := nameAgrees_iff.mp hagrees
    rw [hlast, hall, hnone] at hplainForce
    rw [hnone]
    exact hplainForce
  · rw [List.getLast?_append_of_ne_nil _ hnone]

/-! ## Streams -/

theorem forall_getElem?_cons {α : Type} {P : Nat → α → Prop} {a : α} {l : List α} :
    (∀ k x, (a :: l)[k]? = some x → P k x) ↔ P 0 a ∧ ∀ k x, l[k]? = some x → P (k + 1) x := by
  constructor
  · exact fun h => ⟨h 0 a rfl, fun k x hx => h (k + 1) x hx⟩
  · rintro ⟨hzero, hsucc⟩ k x hx
    cases k with
    | zero =>
      cases hx
      exact hzero
    | succ k => exact hsucc k x hx

variable (ops) in
/-- Every member that is read has the names and the size that POSIX gives the member at its place, and the headers that are
copied out give its path again. -/
def ReadAsPosix (items : List TarItem) (posix : List Values) : Prop :=
  ∀ (k : Nat) (it : TarItem), items[k]? = some it →
    posix[k]? = some it.member.values ∧ it.member.writtenPath ops = it.member.path

variable (ops) in
/-- The records of every member that is read agree. -/
def RecordsAgree (items : List TarItem) (raws : List (List Bytes × RawMember)) : Prop :=
  ∀ (k : Nat) (it : TarItem), items[k]? = some it → ∀ x : List Bytes × RawMember, raws[k]? = some x → Agrees ops x.1 x.2

theorem readAsPosix_nil (posix : List Values) : ReadAsPosix ops [] posix := fun _ _ h => by simp at h

theorem recordsAgree_nil (raws : List (List Bytes × RawMember)) : RecordsAgree ops [] raws := fun _ _ h => by simp at h

theorem readAsPosix_cons {it : TarItem} {items : List TarItem} {v : Values} {posix : List Values} :
    ReadAsPosix ops (it :: items) (v :: posix) ↔
      (v = it.member.values ∧ it.member.writtenPath ops = it.member.path) ∧ ReadAsPosix ops items posix := by
  rw [ReadAsPosix, forall_getElem?_cons, ReadAsPosix]
  simp only [List.getElem?_cons_zero, List.getElem?_cons_succ, Option.some.injEq]

theorem recordsAgree_cons {it : TarItem} {items : List TarItem} {x : List Bytes × RawMember}
    {raws : List (List Bytes × RawMember)} :
    RecordsAgree ops (it :: items) (x :: raws) ↔ Agrees ops x.1 x.2 ∧ RecordsAgree ops items raws := by
  rw [RecordsAgree, forall_getElem?_cons, RecordsAgree]
  simp only [List.getElem?_cons_zero, List.getElem?_cons_succ, Option.some.injEq, forall_eq']

/-- While the sizes agree the two readers stay at the same place, so the first member on which they differ is one whose
records do not agree. -/
theorem decodeFrom_posix_iff (label : String) : ∀ (fuel n : Nat) (globals : List Bytes) (s : Stream),
    ReadAsPosix ops (decodeFrom ops label fuel n s).items (posixFrom ops label fuel globals s) ↔
      RecordsAgree ops (decodeFrom ops label fuel n s).items (rawFrom ops label fuel globals s) := by
  intro fuel
  induction fuel with
  | zero =>
    intro n globals s
    exact iff_of_true (readAsPosix_nil _) (recordsAgree_nil _)
  | succ fuel ih =>
    intro n globals s
    rw [decodeFrom]
    split
    · exact iff_of_true (readAsPosix_nil _) (recordsAgree_nil _)
    · exact iff_of_true (readAsPosix_nil _) (recordsAgree_nil _)
    · rename_i m s' hread
      obtain ⟨raw, hraw, hfrom⟩ := readRaw_of_readMember hread
      have hvalues := posix_eq_values_iff hfrom globals
      have hhead : (raw.posix ops globals = m.values ∧ m.writtenPath ops = m.path) ↔ Agrees ops globals raw :=
        ⟨fun h => hvalues.mp h.1, fun h => ⟨hvalues.mpr h, writtenPath_of_agrees hfrom h.path⟩⟩
      rw [posixFrom, rawFrom, hraw]
      simp only
      split
      · rw [readAsPosix_cons, recordsAgree_cons]
        exact and_congr hhead (iff_of_true (readAsPosix_nil _) (recordsAgree_nil _))
      · rename_i payload s'' hdata
        rw [Decoded.cons, readAsPosix_cons, recordsAgree_cons, and_congr_left' hhead]
        refine and_congr_right fun hagrees => ?_
        have hsize : (raw.posix ops globals).size = some m.dataSize := by
          rw [hvalues.mpr hagrees]
          rfl
        rw [hsize, ← hfrom.size]
        simp only [hdata]
        exact ih (n + 1) (globals ++ globalRecords ops raw.extensions) s''

/-- A member with two paths, the second outside the root. -/
def twoPaths : Stream where
  bytes := Ustar.member "pax" .xHeader "" (recordBytes (bytes "path=safe") ++ recordBytes (bytes "path=../evil")) ++
    Ustar.member "plain" .regular "" [] ++ zeros 1024
  broken := false

end agreement

end Firestone.Oci
