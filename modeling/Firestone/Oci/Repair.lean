import Firestone.Oci.Overlay
import Firestone.Oci.TarReading

/-!
# Repaired headers

* `parsePaxRecords_flatMap` — records that are serialized again are read as they were, and take no more room.
* `HeaderOps.Lawful` — what the `tar` crate documents of a header's fields: a setter changes its own field only.
* `filterExtensions_ok` — the extension headers a repair keeps are sound and name no link target.
-/

namespace Firestone.Oci

open Firestone.Lib

/-! ## Records -/

theorem length_recordBytes (record : Bytes) : (recordBytes record).length = selfLength record.length := by
  have h := selfLength_fixed record.length
  unfold lengthWith at h
  simp only [recordBytes, List.length_append, List.length_cons, List.length_nil]
  omega

theorem idxOf?_space {digits rest : Bytes} (h : ∀ b ∈ digits, isDecimalDigit b = true) :
    (digits ++ 0x20 :: rest).idxOf? 0x20 = some digits.length := by
  induction digits with
  | nil => simp [List.idxOf?_cons]
  | cons b digits ih =>
    have hb : b ≠ 0x20 := by
      rintro rfl
      exact absurd (h 0x20 List.mem_cons_self) (by decide)
    rw [List.cons_append, List.idxOf?_cons, if_neg (by simpa using hb),
      ih fun b' hb' => h b' (List.mem_cons_of_mem _ hb')]
    rfl

/-- One serialized record is read, and then what follows it. -/
theorem parsePaxRecordsFrom_cons (record rest : Bytes) (fuel : Nat) (h : selfLength record.length < 2 ^ 64) :
    parsePaxRecordsFrom (fuel + 1) (recordBytes record ++ rest) =
      (parsePaxRecordsFrom fuel rest >>= fun records => .ok (record :: records)) := by
  have hlen := length_recordBytes record
  have hfix := selfLength_fixed record.length
  unfold lengthWith at hfix
  generalize hd : decimal (selfLength record.length) = digits at hfix
  have hpos : 0 < digits.length := by rw [← hd]; exact length_decimal_pos _
  have hdigits : ∀ b ∈ digits, isDecimalDigit b = true := fun b hb => isDecimalDigit_of_mem (hd ▸ hb)
  have hparse : parseDecimal (2 ^ 64) digits = some (selfLength record.length) := hd ▸ parseDecimal_decimal h
  have hbytes : recordBytes record ++ rest = digits ++ 0x20 :: (record ++ 0x0A :: rest) := by
    simp [recordBytes, hd]
  have htotal : (recordBytes record ++ rest).length = selfLength record.length + rest.length := by
    rw [List.length_append, hlen]
  have hdrop : (recordBytes record ++ rest).drop (selfLength record.length) = rest := List.drop_left' hlen
  have hslice : ((recordBytes record ++ rest).take (selfLength record.length - 1)).drop (digits.length + 1) = record := by
    have hpre : recordBytes record ++ rest = ((digits ++ [0x20]) ++ record) ++ 0x0A :: rest := by
      rw [hbytes]
      simp
    rw [hpre, List.take_left' (by simp; omega), List.drop_left' (by simp)]
  obtain ⟨b, tail, hcons⟩ : ∃ b tail, recordBytes record ++ rest = b :: tail := by
    cases hc : recordBytes record ++ rest with
    | nil => rw [hc] at htotal; simp at htotal; omega
    | cons b tail => exact ⟨b, tail, rfl⟩
  have hidx : (b :: tail).idxOf? 0x20 = some digits.length := by rw [← hcons, hbytes, idxOf?_space hdigits]
  have htake : (b :: tail).take digits.length = digits := by rw [← hcons, hbytes, List.take_left]
  rw [hcons] at hdrop hslice htotal
  rw [hcons, parsePaxRecordsFrom, hidx]
  simp only [htake, hparse]
  rw [if_neg (by rw [htotal]; omega), hdrop]
  simp only [hslice]
  rfl

/-- Serialized records are read as they were. -/
theorem parsePaxRecordsFrom_flatMap : ∀ {records : List Bytes} {fuel : Nat},
    (records.flatMap recordBytes).length < 2 ^ 64 → records.length ≤ fuel →
    parsePaxRecordsFrom fuel (records.flatMap recordBytes) = .ok records := by
  intro records
  induction records with
  | nil =>
    intro fuel _ _
    cases fuel <;> rfl
  | cons record records ih =>
    intro fuel h hfuel
    obtain ⟨fuel, rfl⟩ : ∃ k, fuel = k + 1 := ⟨fuel - 1, by simp at hfuel; omega⟩
    rw [List.flatMap_cons, List.length_append, length_recordBytes] at h
    rw [List.flatMap_cons, parsePaxRecordsFrom_cons _ _ _ (by omega), ih (by omega) (by simp at hfuel; omega)]
    rfl

theorem parsePaxRecords_flatMap {records : List Bytes} (h : (records.flatMap recordBytes).length < 2 ^ 64) :
    parsePaxRecords (records.flatMap recordBytes) = .ok records := by
  refine parsePaxRecordsFrom_flatMap h ?_
  clear h
  induction records with
  | nil => simp
  | cons record records ih =>
    have hfix := selfLength_fixed record.length
    unfold lengthWith at hfix
    rw [List.flatMap_cons, List.length_append, length_recordBytes, List.length_cons]
    omega

/-- Records that were read take no more room when they are serialized again: the written length has no sign and no
leading zeros. -/
theorem length_flatMap_le : ∀ {fuel : Nat} {data : Bytes} {records : List Bytes},
    parsePaxRecordsFrom fuel data = .ok records → (records.flatMap recordBytes).length ≤ data.length := by
  intro fuel
  induction fuel with
  | zero =>
    intro data records h
    cases data <;> · cases h; simp
  | succ fuel ih =>
    intro data records h
    cases data with
    | nil => cases h; simp
    | cons b tail =>
      rw [parsePaxRecordsFrom] at h
      cases hidx : (b :: tail).idxOf? 0x20 with
      | none => rw [hidx] at h; cases h
      | some space =>
        simp only [hidx] at h
        cases hparse : parseDecimal (2 ^ 64) ((b :: tail).take space) with
        | none => rw [hparse] at h; cases h
        | some length =>
          simp only [hparse] at h
          split at h
          · cases h
          rename_i hrange
          obtain ⟨others, hothers, h⟩ := Res.bind_ok h
          cases h
          have hrest := ih hothers
          have hlt := (parseDecimal_lt hparse).2
          have hspace : ((b :: tail).take space).length = space := by
            rw [List.length_take]
            omega
          have hpos : 0 < space := by
            by_contra hz
            have hz : space = 0 := by omega
            subst hz
            rw [hspace] at hlt
            simp at hlt
            omega
          rw [hspace] at hlt
          have hdigits : (decimal length).length ≤ space := (length_decimal_le_iff hpos).mpr hlt
          have hrecord : (((b :: tail).take (length - 1)).drop (space + 1)).length = length - 1 - (space + 1) := by
            rw [List.length_drop, List.length_take]
            omega
          have hself : selfLength (length - 1 - (space + 1)) ≤ length := selfLength_le (by unfold lengthWith; omega)
          rw [List.length_drop] at hrest
          rw [List.flatMap_cons, List.length_append, length_recordBytes, hrecord]
          omega

/-- Fewer records take less room. -/
theorem length_flatMap_filter (p : Bytes → Bool) (records : List Bytes) :
    ((records.filter p).flatMap recordBytes).length ≤ (records.flatMap recordBytes).length := by
  induction records with
  | nil => simp
  | cons record records ih =>
    rw [List.filter_cons]
    split
    · simp only [List.flatMap_cons, List.length_append]
      omega
    · simp only [List.flatMap_cons, List.length_append]
      omega

/-- A key that no record has is not found. -/
theorem paxValue_none {records : List Bytes} {key : Bytes} (h : ∀ record ∈ records, recordKey record ≠ key) :
    paxValue records key = none := by
  unfold paxValue
  rw [List.findSome?_eq_none_iff]
  intro record hr
  cases hidx : record.idxOf? 0x3D with
  | none => rfl
  | some i =>
    obtain ⟨u, v, huv, hlen, hu⟩ := split_at_idxOf? hidx
    have hkey : recordKey record = u := by
      have hpos : ∀ b ∈ u, decide (b ≠ 0x3D) = true := by
        intro b hb
        simp only [decide_eq_true_eq]
        rintro rfl
        exact hu hb
      rw [recordKey, huv, List.takeWhile_append_of_pos hpos]
      simp
    have htake : record.take i = u := by rw [huv, ← hlen, List.take_left]
    simp only [Option.bind_some, htake]
    rw [if_neg fun e => h record hr (hkey.trans e)]

/-! ## The fields of a header -/

/-- What the reader takes from a header block. -/
structure HeaderView where
  path : Bytes
  link : Option Bytes
  entryType : EntryType
  size : Option Nat
  cksum : Option UInt32
  deriving DecidableEq

def HeaderOps.view (ops : HeaderOps) (h : Block) : HeaderView :=
  ⟨ops.pathBytes h, ops.linkNameBytes h, ops.entryType h, ops.entrySize h, ops.cksum h⟩

/-- The documented behaviour of `tar::Header`: sizes are 64-bit numbers, a setter that succeeds changes its own field
only, a fresh header takes a path without its `.` components, and a checksum that was just set is right. -/
structure HeaderOps.Lawful (ops : HeaderOps) : Prop where
  entrySize_lt : ∀ {h n}, ops.entrySize h = some n → n < 2 ^ 64
  setEntryType : ∀ h, ops.view (ops.setEntryType h .regular) = { ops.view h with entryType := .regular }
  setSize : ∀ h n, n < 2 ^ 64 → ops.view (ops.setSize h n) = { ops.view h with size := some n }
  setLinkNameLiteral : ∀ {h t h'}, ops.setLinkNameLiteral h t = some h' →
    ops.view h' = { ops.view h with link := if t = [] then none else some t }
  setCksum : ∀ h, ∃ c, ops.view (ops.setCksum h) = { ops.view h with cksum := some c } ∧
    checksumMatches (ops.setCksum h) c = true ∧ (ops.setCksum h).isZero = false
  setPath : ∀ {s h'}, ops.setPath ops.newUstar s = some h' →
    ∃ p, ops.view h' = { ops.view ops.newUstar with path := p } ∧ rawComponents p = rawComponents (bytes s)
  setUsername : ∀ {h s h'}, ops.setUsername h s = some h' → ops.view h' = ops.view h
  setGroupname : ∀ {h s h'}, ops.setGroupname h s = some h' → ops.view h' = ops.view h
  setMode : ∀ h m, ops.view (ops.setMode h m) = ops.view h
  setUid : ∀ h n, ops.view (ops.setUid h n) = ops.view h
  setGid : ∀ h n, ops.view (ops.setGid h n) = ops.view h
  setMtime : ∀ h n, ops.view (ops.setMtime h n) = ops.view h

section ops

variable {ops : HeaderOps}

/-- A header with a fresh checksum can be read, by the fields it has. -/
theorem readable_setCksum (laws : ops.Lawful) {h : Block} {size : Nat} (hsize : (ops.view h).size = some size)
    (hsparse : (ops.view h).entryType ≠ .gnuSparse) :
    Readable ops (ops.setCksum h) (ops.view h).entryType size ∧
      ops.pathBytes (ops.setCksum h) = (ops.view h).path ∧ ops.linkNameBytes (ops.setCksum h) = (ops.view h).link := by
  obtain ⟨c, hview, hmatch, hzero⟩ := laws.setCksum h
  have hpath := congrArg HeaderView.path hview
  have hlink := congrArg HeaderView.link hview
  have htype := congrArg HeaderView.entryType hview
  have hsz := congrArg HeaderView.size hview
  have hck := congrArg HeaderView.cksum hview
  exact ⟨⟨hzero, ⟨c, hck, hmatch⟩, htype, hsparse, hsz.trans hsize⟩, hpath, hlink⟩

/-! ## Extension headers of a repaired member -/

/-- The names give no link target. -/
def ExtensionNames.Unlinked (names : ExtensionNames) : Prop := names.longLink = none ∧ names.paxLink = none

theorem droppedRecord_filter (promoted : Bool) (records : List Bytes) :
    ∀ record ∈ records.filter (fun record => !droppedRecord promoted record), recordKey record ≠ bytes "linkpath" := by
  intro record hr hkey
  have hdrop := (List.mem_filter.mp hr).2
  rw [droppedRecord, hkey] at hdrop
  simp at hdrop

/-- What is kept of one extension header is sound, and reading it gives no link target. -/
theorem filterExtension_ok (laws : ops.Lawful) {promoted : Bool} {e : ExtensionHeader} {kept : List ExtensionHeader}
    (he : e.Sound ops) (h : filterExtension ops promoted e = .ok kept) :
    (∀ e' ∈ kept, e'.Sound ops) ∧ ∀ names : ExtensionNames, names.Unlinked →
      ∃ names', readNames ops names kept = .ok names' ∧ names'.Unlinked := by
  unfold filterExtension at h
  split at h
  · cases h
    exact ⟨by simp, fun names hn => ⟨names, rfl, hn⟩⟩
  · rename_i htype
    obtain ⟨records, hrecords, h⟩ := Res.bind_ok h
    simp only at h
    split at h
    · cases h
      exact ⟨by simp, fun names hn => ⟨names, rfl, hn⟩⟩
    cases h
    generalize hdata : (records.filter fun record => !droppedRecord promoted record).flatMap recordBytes = data
    have hle : data.length ≤ e.data.length := by
      rw [← hdata]
      exact Nat.le_trans (length_flatMap_filter _ _) (length_flatMap_le hrecords)
    have hmax := he.fits
    have hbound : data.length < 2 ^ 64 := by
      unfold maxExtensionBytes at hmax
      omega
    have hsize : (ops.view (ops.setSize e.header data.length)).size = some data.length := by
      rw [laws.setSize _ _ hbound]
    have htypeSet : (ops.view (ops.setSize e.header data.length)).entryType = .xHeader := by
      rw [laws.setSize _ _ hbound]
      exact htype
    obtain ⟨hread, _, _⟩ := readable_setCksum laws hsize (by rw [htypeSet]; simp)
    rw [htypeSet] at hread
    have htypeNew := hread.type
    have hparse : parsePaxRecords data = .ok (records.filter fun record => !droppedRecord promoted record) := by
      rw [← hdata]
      exact parsePaxRecords_flatMap (by rw [hdata]; exact hbound)
    constructor
    · intro e' he'
      rw [List.mem_singleton] at he'
      subst he'
      exact ⟨by rw [htypeNew]; exact hread, by rw [htypeNew]; rfl, by rw [htypeNew]; simp, Nat.le_trans hle hmax⟩
    · intro names hn
      have hnone := paxValue_none (droppedRecord_filter promoted records)
      refine ⟨{ names with
        paxPath := paxValue (records.filter fun record => !droppedRecord promoted record) (bytes "path")
        paxLink := none }, ?_, hn.1, rfl⟩
      show (names.read (ops.entryType (ops.setCksum (ops.setSize e.header data.length))) data >>= _) = _
      rw [htypeNew]
      show (parsePaxRecords data >>= _) >>= _ = _
      rw [hparse]
      show Except.ok _ = _
      rw [hnone]
  · rename_i hlong hpax
    cases h
    refine ⟨by simpa using he, fun names hn => ?_⟩
    have hext := he.extension
    have hglobal := he.notGlobal
    show ∃ names', (names.read (ops.entryType e.header) e.data >>= _) = _ ∧ _
    cases htype : ops.entryType e.header <;> rw [htype] at hext <;> try cases hext
    · exact ⟨_, rfl, hn⟩
    · exact absurd htype hlong
    · exact absurd htype hglobal
    · exact absurd htype hpax

/-- What is kept of all extension headers. -/
theorem filterExtensions_ok (laws : ops.Lawful) {promoted : Bool} : ∀ {es kept : List ExtensionHeader},
    (∀ e ∈ es, e.Sound ops) → filterExtensions ops promoted es = .ok kept →
    (∀ e ∈ kept, e.Sound ops) ∧ ∀ names : ExtensionNames, names.Unlinked →
      ∃ names', readNames ops names kept = .ok names' ∧ names'.Unlinked := by
  intro es
  induction es with
  | nil =>
    intro kept _ h
    cases h
    exact ⟨by simp, fun names hn => ⟨names, rfl, hn⟩⟩
  | cons e es ih =>
    intro kept hs h
    obtain ⟨first, hfirst, h⟩ := Res.bind_ok h
    obtain ⟨others, hothers, h⟩ := Res.bind_ok h
    cases h
    obtain ⟨hsound₁, hnames₁⟩ := filterExtension_ok laws (hs e List.mem_cons_self) hfirst
    obtain ⟨hsound₂, hnames₂⟩ := ih (fun e' he' => hs e' (List.mem_cons_of_mem _ he')) hothers
    refine ⟨fun e' he' => (List.mem_append.mp he').elim (hsound₁ e') (hsound₂ e'), fun names hn => ?_⟩
    obtain ⟨names₁, hread₁, hn₁⟩ := hnames₁ names hn
    obtain ⟨names₂, hread₂, hn₂⟩ := hnames₂ names₁ hn₁
    refine ⟨names₂, ?_, hn₂⟩
    rw [readNames_append, hread₁]
    exact hread₂

/-! ## What a repair keeps of the records -/

/-- The records that do not contradict a repaired header. -/
def keptRecords (promoted : Bool) (records : List Bytes) : List Bytes :=
  records.filter fun record => recordKey record ≠ bytes "linkpath" ∧ (promoted = true → recordKey record ≠ bytes "size")

theorem keptRecords_eq (promoted : Bool) (records : List Bytes) :
    (records.filter fun record => !droppedRecord promoted record) = keptRecords promoted records := by
  refine List.filter_congr fun record _ => ?_
  by_cases hlink : recordKey record = bytes "linkpath"
  · simp [droppedRecord, hlink]
  · cases promoted <;> simp [droppedRecord, hlink]

theorem flatMap_recordBytes_isEmpty (records : List Bytes) : (records.flatMap recordBytes).isEmpty = records.isEmpty := by
  cases records with
  | nil => rfl
  | cons record records =>
    have hne : recordBytes record ≠ [] := by simp [recordBytes]
    simp [hne]

variable (ops) in
/-- What a repair makes of an extension header with these records: a link name goes, the records of an extended header are
the kept ones in a header of their length, or nothing where none is kept. Other headers stay. -/
def KeptOf (promoted : Bool) (e : ExtensionHeader) (records : List Bytes) (kept : List ExtensionHeader) : Prop :=
  match ops.entryType e.header with
  | .gnuLongLink => kept = []
  | .xHeader =>
    if keptRecords promoted records = [] then kept = []
    else ∃ data, kept = [⟨ops.setCksum (ops.setSize e.header data.length), data⟩] ∧
      parsePaxRecords data = .ok (keptRecords promoted records)
  | _ => kept = [e]

/-- What a header parses to is kept, but for the dropped keys, in order and unchanged. -/
theorem filterExtension_repaired {promoted : Bool} {e : ExtensionHeader} {records : List Bytes}
    (hlen : e.data.length < 2 ^ 64) (h : ops.entryType e.header = .xHeader → parsePaxRecords e.data = .ok records) :
    ∃ kept, filterExtension ops promoted e = .ok kept ∧ KeptOf ops promoted e records kept := by
  unfold filterExtension KeptOf
  cases htype : ops.entryType e.header with
  | xHeader =>
    have hrecords := h htype
    have hle : ((keptRecords promoted records).flatMap recordBytes).length ≤ e.data.length :=
      Nat.le_trans (length_flatMap_filter _ _) (length_flatMap_le hrecords)
    have hparse : parsePaxRecords ((keptRecords promoted records).flatMap recordBytes) = .ok (keptRecords promoted records) :=
      parsePaxRecords_flatMap (Nat.lt_of_le_of_lt hle hlen)
    simp only [hrecords, bind, Except.bind, keptRecords_eq, flatMap_recordBytes_isEmpty, List.isEmpty_iff]
    split
    · exact ⟨[], rfl, rfl⟩
    · exact ⟨_, rfl, _, rfl, hparse⟩
  | _ => exact ⟨_, rfl, rfl⟩

/-- All headers of a member, one after the other. -/
theorem filterExtensions_repaired {promoted : Bool} {records : ExtensionHeader → List Bytes} :
    ∀ {es : List ExtensionHeader}, (∀ e ∈ es, e.data.length < 2 ^ 64) →
    (∀ e ∈ es, ops.entryType e.header = .xHeader → parsePaxRecords e.data = .ok (records e)) →
    ∃ parts, filterExtensions ops promoted es = .ok parts.flatten ∧
      List.Forall₂ (fun e kept => KeptOf ops promoted e (records e) kept) es parts := by
  intro es
  induction es with
  | nil => exact fun _ _ => ⟨[], rfl, .nil⟩
  | cons e es ih =>
    intro hlen h
    obtain ⟨kept, hkept, hone⟩ := @filterExtension_repaired ops promoted e (records e) (hlen e List.mem_cons_self)
      (h e List.mem_cons_self)
    obtain ⟨parts, hparts, hall⟩ := ih (fun e' he' => hlen e' (List.mem_cons_of_mem _ he'))
      fun e' he' => h e' (List.mem_cons_of_mem _ he')
    refine ⟨kept :: parts, ?_, .cons hone hall⟩
    rw [filterExtensions, hkept, List.flatten_cons]
    simp only [bind, Except.bind, hparts]
    rfl

end ops

end Firestone.Oci
