import Firestone.Oci.Repair
import Mathlib.Data.List.TakeWhile

/-!
# The ustar layout

Headers as the fields of a ustar block: `Ustar.ops` is an implementation of `HeaderOps` that is lawful
(`Ustar.lawful`), on which merges can be run. Paths of more than one hundred bytes, which the `tar` crate splits over
two fields, are refused here. `Ustar.member` and `Ustar.layer` write members and layers in this layout.
-/

namespace Firestone.Oci

open Firestone.Lib

namespace Ustar

/-! ## Fields -/

def field (off len : Nat) (b : Block) : Bytes := (b.1.drop off).take len

/-- Cut or padded with zero bytes to a length. -/
def fit (len : Nat) (data : Bytes) : Bytes := (data ++ zeros len).take len

@[simp] theorem length_fit (len : Nat) (data : Bytes) : (fit len data).length = len := by
  simp [fit, length_zeros]

/-- Overwrites a field; one that lies outside the block is left alone. -/
def setField (off len : Nat) (data : Bytes) (b : Block) : Block :=
  if h : off + len ≤ 512 then
    ⟨b.1.take off ++ (fit len data ++ b.1.drop (off + len)), by
      have := b.2
      simp only [List.length_append, List.length_take, List.length_drop, length_fit]
      omega⟩
  else b

section fields

variable {off len off' len' : Nat} {data : Bytes} {b : Block}

theorem field_setField_self (h : off + len ≤ 512) : field off len (setField off len data b) = fit len data := by
  have hoff : (b.1.take off).length = off := by
    have := b.2
    rw [List.length_take]
    omega
  unfold field setField
  rw [dif_pos h]
  simp only
  rw [List.drop_left' hoff, List.take_left' (length_fit len data)]

theorem field_setField_of_le (h : off' + len' ≤ off) : field off' len' (setField off len data b) = field off' len' b := by
  unfold field setField
  split
  · rename_i hin
    have hoff : (b.1.take off).length = off := by
      have := b.2
      rw [List.length_take]
      omega
    simp only
    rw [List.drop_append_of_le_length (by omega), List.take_append_of_le_length (by rw [List.length_drop]; omega),
      List.drop_take, List.take_take, Nat.min_eq_left (by omega)]
  · rfl

theorem field_setField_of_ge (h : off + len ≤ off') : field off' len' (setField off len data b) = field off' len' b := by
  unfold field setField
  split
  · rename_i hin
    have hoff : (b.1.take off).length = off := by
      have := b.2
      rw [List.length_take]
      omega
    simp only
    have hpre : (b.1.take off ++ fit len data).length = off + len := by rw [List.length_append, hoff, length_fit]
    rw [← List.append_assoc, List.drop_append, List.drop_eq_nil_of_le (by omega), List.nil_append, List.drop_drop, hpre]
    congr 2
    omega
  · rfl

end fields

/-! ## Numbers -/

/-- Octal digits, closed by a zero byte. -/
def octal (k n : Nat) : Bytes := (fixedDigits 8 k n).map (fun d => UInt8.ofNat (48 + d)) ++ [0]

def isOctalDigit (b : UInt8) : Bool := 0x30 ≤ b && b ≤ 0x37

/-- Reads the octal digits before the first zero byte. -/
def parseOctal (data : Bytes) : Option Nat :=
  let digits := trimNul data
  if digits ≠ [] ∧ digits.all isOctalDigit then some (digitValue 8 (digits.map fun b => b.toNat - 48)) else none

/-- A number field of twelve bytes: octal, or binary behind a byte with its high bit set. -/
def parseNumber (data : Bytes) : Option Nat :=
  if 0x80 ≤ data.headD 0 then some (digitValue 256 ((data.drop 4).map (·.toNat)) % 2 ^ 64)
  else (parseOctal data).bind fun n => if n < 2 ^ 64 then some n else none

def number (n : Nat) : Bytes :=
  if n < 8 ^ 11 then octal 11 n else 0x80 :: 0 :: 0 :: 0 :: (fixedDigits 256 8 n).map UInt8.ofNat

theorem octalByte_toNat {d : Nat} (h : d < 8) : (UInt8.ofNat (48 + d)).toNat = 48 + d := by
  rw [UInt8.toNat_ofNat']
  omega

theorem length_octal (k n : Nat) : (octal k n).length = k + 1 := by simp [octal]

theorem trimNul_octal {k n : Nat} {rest : Bytes} :
    trimNul (octal k n ++ rest) = (fixedDigits 8 k n).map fun d => UInt8.ofNat (48 + d) := by
  have hpos : ∀ b ∈ (fixedDigits 8 k n).map (fun d => UInt8.ofNat (48 + d)), decide (b ≠ 0) = true := by
    intro b hb
    obtain ⟨d, hd, rfl⟩ := List.mem_map.mp hb
    have hlt := octalByte_toNat (lt_of_mem_fixedDigits (by decide) hd)
    simp only [decide_eq_true_eq]
    intro hzero
    rw [hzero] at hlt
    simp at hlt
    omega
  rw [trimNul, octal, List.append_assoc, List.takeWhile_append_of_pos hpos]
  simp

theorem parseOctal_octal {k n : Nat} (hk : 0 < k) (h : n < 8 ^ k) (rest : Bytes) :
    parseOctal (octal k n ++ rest) = some n := by
  have hne : (fixedDigits 8 k n).map (fun d => UInt8.ofNat (48 + d)) ≠ [] := by
    intro hnil
    have := congrArg List.length hnil
    simp at this
    omega
  have hall : ((fixedDigits 8 k n).map fun d => UInt8.ofNat (48 + d)).all isOctalDigit = true := by
    rw [List.all_eq_true]
    intro b hb
    obtain ⟨d, hd, rfl⟩ := List.mem_map.mp hb
    have hlt := lt_of_mem_fixedDigits (by decide) hd
    simp only [isOctalDigit, Bool.and_eq_true, decide_eq_true_eq, UInt8.le_iff_toNat_le, octalByte_toNat hlt]
    constructor
    · show 48 ≤ 48 + d
      omega
    · show 48 + d ≤ 55
      omega
  have hback : ((fixedDigits 8 k n).map fun d => UInt8.ofNat (48 + d)).map (fun b => b.toNat - 48) =
      fixedDigits 8 k n := by
    rw [List.map_map]
    refine (List.map_congr_left fun d hd => ?_).trans (List.map_id _)
    show (UInt8.ofNat (48 + d)).toNat - 48 = d
    rw [octalByte_toNat (lt_of_mem_fixedDigits (by decide) hd)]
    omega
  unfold parseOctal
  simp only [trimNul_octal]
  rw [if_pos ⟨hne, hall⟩, hback, digitValue_fixedDigits (by decide) h]

theorem length_number (n : Nat) : (number n).length = 12 := by
  unfold number
  split
  · rw [length_octal]
  · simp

theorem parseNumber_number {n : Nat} (h : n < 2 ^ 64) : parseNumber (number n) = some n := by
  unfold number
  split
  · rename_i hsmall
    have hhead : ¬(0x80 : UInt8) ≤ (octal 11 n).headD 0 := by
      have hmem : ∀ b ∈ octal 11 n, ¬(0x80 : UInt8) ≤ b := by
        intro b hb
        rcases List.mem_append.mp hb with hb | hb
        · obtain ⟨d, hd, rfl⟩ := List.mem_map.mp hb
          have hlt := lt_of_mem_fixedDigits (by decide) hd
          rw [UInt8.le_iff_toNat_le, octalByte_toNat hlt]
          show ¬128 ≤ 48 + d
          omega
        · rw [List.mem_singleton.mp hb]
          decide
      cases hc : octal 11 n with
      | nil =>
        have := length_octal 11 n
        rw [hc] at this
        simp at this
      | cons b l => exact hmem b (by rw [hc]; exact List.mem_cons_self)
    have hparse := parseOctal_octal (by decide) hsmall []
    rw [List.append_nil] at hparse
    unfold parseNumber
    rw [if_neg hhead, hparse, Option.bind_some, if_pos h]
  · have hback : ((fixedDigits 256 8 n).map UInt8.ofNat).map (fun b => b.toNat) = fixedDigits 256 8 n := by
      rw [List.map_map]
      refine (List.map_congr_left fun d hd => ?_).trans (List.map_id _)
      have hlt : d < 256 := lt_of_mem_fixedDigits (by decide) hd
      show (UInt8.ofNat d).toNat = d
      rw [UInt8.toNat_ofNat']
      omega
    have hvalue : digitValue 256 (fixedDigits 256 8 n) = n := digitValue_fixedDigits (by decide) (by
      have : (256 : Nat) ^ 8 = 2 ^ 64 := by decide
      omega)
    unfold parseNumber
    simp only [List.headD_cons, List.drop_succ_cons, List.drop_zero, hback, hvalue]
    rw [if_pos (by decide), Nat.mod_eq_of_lt h]

/-! ## Headers -/

def typeOf (code : UInt8) : EntryType :=
  if code = 0x00 ∨ code = 0x30 then .regular
  else if code = 0x31 then .link
  else if code = 0x32 then .symlink
  else if code = 0x33 then .char
  else if code = 0x34 then .block
  else if code = 0x35 then .directory
  else if code = 0x36 then .fifo
  else if code = 0x37 then .continuous
  else if code = 0x4C then .gnuLongName
  else if code = 0x4B then .gnuLongLink
  else if code = 0x53 then .gnuSparse
  else if code = 0x67 then .xGlobalHeader
  else if code = 0x78 then .xHeader
  else .other code

def typeByte : EntryType → UInt8
  | .regular => 0x30
  | .link => 0x31
  | .symlink => 0x32
  | .char => 0x33
  | .block => 0x34
  | .directory => 0x35
  | .fifo => 0x36
  | .continuous => 0x37
  | .gnuLongName => 0x4C
  | .gnuLongLink => 0x4B
  | .gnuSparse => 0x53
  | .xGlobalHeader => 0x67
  | .xHeader => 0x78
  | .other code => code

/-- The text fits the field and holds no zero byte. -/
def Fits (len : Nat) (data : Bytes) : Prop := data.length ≤ len ∧ 0 ∉ data

instance (len : Nat) (data : Bytes) : Decidable (Fits len data) := inferInstanceAs (Decidable (_ ∧ _))

def checksum (b : Block) : Nat := ((blanked b).map (·.toNat)).sum

/-- The fields of a header block. -/
def ops : HeaderOps where
  entryType b := typeOf ((field 156 1 b).headD 0)
  entrySize b := parseNumber (field 124 12 b)
  pathBytes b :=
    if field 257 6 b = bytes "ustar" ++ [0] ∧ trimNul (field 345 155 b) ≠ [] then
      trimNul (field 345 155 b) ++ slash :: trimNul (field 0 100 b)
    else trimNul (field 0 100 b)
  linkNameBytes b := if trimNul (field 157 100 b) = [] then none else some (trimNul (field 157 100 b))
  cksum b := (parseOctal (field 148 8 b)).map UInt32.ofNat
  setEntryType b t := setField 156 1 [typeByte t] b
  setSize b n := setField 124 12 (number n) b
  setLinkNameLiteral b t := if Fits 100 t then some (setField 157 100 t b) else none
  setCksum b := setField 148 8 (octal 7 (checksum b)) b
  newUstar := setField 136 12 (number 0) (setField 257 8 (bytes "ustar" ++ [0, 0x30, 0x30]) ⟨zeros 512, length_zeros 512⟩)
  setPath b s :=
    if Fits 100 (bytes s) ∧ bytes s ≠ [] ∧ [slash].intercalate (rawComponents (bytes s)) = bytes s ∧
      dotDot ∉ rawComponents (bytes s) then some (setField 0 100 (bytes s) b) else none
  setUsername b s := if Fits 32 (bytes s) then some (setField 265 32 (bytes s) b) else none
  setGroupname b s := if Fits 32 (bytes s) then some (setField 297 32 (bytes s) b) else none
  setMode b m := setField 100 8 (octal 7 m.toNat) b
  setUid b n := setField 108 8 (octal 7 n) b
  setGid b n := setField 116 8 (octal 7 n) b
  setMtime b n := setField 136 12 (number n) b

/-! ## Laws -/

theorem fit_self {len : Nat} {data : Bytes} (h : data.length = len) : fit len data = data := List.take_left' h

/-- A text that fits is read back from its field. -/
theorem trimNul_fit {len : Nat} {data : Bytes} (h : Fits len data) : trimNul (fit len data) = data := by
  have hfit : fit len data = data ++ zeros (len - data.length) := by
    unfold fit zeros
    rw [List.take_append, List.take_of_length_le h.1, List.take_replicate, Nat.min_eq_left (by omega)]
  have hpos : ∀ b ∈ data, decide (b ≠ 0) = true := by
    intro b hb
    simp only [decide_eq_true_eq]
    rintro rfl
    exact h.2 hb
  rw [hfit, trimNul, List.takeWhile_append_of_pos hpos]
  unfold zeros
  cases len - data.length with
  | zero => simp
  | succ n => simp [List.replicate_succ]

theorem sum_le (l : Bytes) : (l.map (·.toNat)).sum ≤ l.length * 255 := by
  induction l with
  | nil => simp
  | cons b l ih =>
    have := b.toNat_lt
    rw [List.map_cons, List.sum_cons, List.length_cons]
    omega

theorem checksum_lt (b : Block) : checksum b < 8 ^ 7 := by
  have hlen : (blanked b).length = 512 := by
    have := b.2
    simp only [blanked, List.length_append, List.length_take, List.length_replicate, List.length_drop]
    omega
  have := sum_le (blanked b)
  unfold checksum
  omega

theorem blanked_setField (b : Block) (data : Bytes) : blanked (setField 148 8 data b) = blanked b := by
  have hoff : (b.1.take 148).length = 148 := by
    have := b.2
    rw [List.length_take]
    omega
  have htake : (setField 148 8 data b).1.take 148 = b.1.take 148 := by
    unfold setField
    rw [dif_pos (by decide)]
    exact List.take_left' hoff
  have hdrop : (setField 148 8 data b).1.drop 156 = b.1.drop 156 := by
    unfold setField
    rw [dif_pos (by decide)]
    simp only
    rw [← List.append_assoc, List.drop_left' (by rw [List.length_append, hoff, length_fit])]
  unfold blanked
  rw [htake, hdrop]

theorem parseOctal_of_isZero {b : Block} (h : b.isZero = true) : parseOctal (field 148 8 b) = none := by
  have hzero : trimNul (field 148 8 b) = [] := by
    unfold trimNul
    rw [List.takeWhile_eq_nil_iff]
    intro hpos
    have hmem : (field 148 8 b).get ⟨0, hpos⟩ ∈ b.1 := List.mem_of_mem_drop (List.mem_of_mem_take (List.get_mem _ _))
    have := (List.all_eq_true.mp h) _ hmem
    simpa using this
  unfold parseOctal
  simp [hzero]

theorem lawful : ops.Lawful := by
  have hck : ∀ b, parseOctal (field 148 8 (ops.setCksum b)) = some (checksum b) := by
    intro b
    show parseOctal (field 148 8 (setField 148 8 (octal 7 (checksum b)) b)) = _
    have hp := parseOctal_octal (k := 7) (by decide) (checksum_lt b) []
    rw [List.append_nil] at hp
    rw [field_setField_self (by decide), fit_self (length_octal 7 _), hp]
  constructor
  case entrySize_lt =>
    intro h n hn
    replace hn : parseNumber (field 124 12 h) = some n := hn
    unfold parseNumber at hn
    split at hn
    · cases hn
      exact Nat.mod_lt _ (by decide)
    · obtain ⟨v, _, hv⟩ := Option.bind_eq_some_iff.mp hn
      split at hv
      · rename_i hlt
        cases hv
        exact hlt
      · cases hv
  case setEntryType =>
    intro h
    simp (disch := decide) only [HeaderOps.view, ops, field_setField_of_le, field_setField_of_ge, field_setField_self]
    rfl
  case setSize =>
    intro h n hn
    simp (disch := decide) only [HeaderOps.view, ops, field_setField_of_le, field_setField_of_ge, field_setField_self,
      fit_self (length_number n), parseNumber_number hn]
  case setLinkNameLiteral =>
    intro h t h' ht
    replace ht : (if Fits 100 t then some (setField 157 100 t h) else none) = some h' := ht
    split at ht
    · rename_i hfits
      cases ht
      simp (disch := decide) only [HeaderOps.view, ops, field_setField_of_le, field_setField_of_ge,
        field_setField_self, trimNul_fit hfits]
    · cases ht
  case setCksum =>
    intro h
    refine ⟨UInt32.ofNat (checksum h), ?_, ?_, ?_⟩
    · have hc : ops.cksum (ops.setCksum h) = some (UInt32.ofNat (checksum h)) := by
        show (parseOctal (field 148 8 (ops.setCksum h))).map UInt32.ofNat = _
        rw [hck]
        rfl
      unfold HeaderOps.view
      rw [hc]
      simp (disch := decide) only [ops, field_setField_of_le, field_setField_of_ge]
    · have hlt := checksum_lt h
      have hnat : (UInt32.ofNat (checksum h)).toNat = checksum h := by
        rw [UInt32.toNat_ofNat']
        omega
      have hblank : blanked (ops.setCksum h) = blanked h := blanked_setField h _
      unfold checksumMatches
      rw [hblank, hnat]
      simp [checksum]
    · by_contra hz
      rw [Bool.not_eq_false] at hz
      have := parseOctal_of_isZero hz
      rw [hck] at this
      cases this
  case setPath =>
    intro s h' hs
    replace hs : (if Fits 100 (bytes s) ∧ bytes s ≠ [] ∧ [slash].intercalate (rawComponents (bytes s)) = bytes s ∧
      dotDot ∉ rawComponents (bytes s) then some (setField 0 100 (bytes s) ops.newUstar) else none) = some h' := hs
    split at hs
    · rename_i hcond
      cases hs
      refine ⟨bytes s, ?_, rfl⟩
      have hprefix : trimNul (field 345 155 ops.newUstar) = [] := by decide +kernel
      have hpath : ops.pathBytes (setField 0 100 (bytes s) ops.newUstar) = bytes s := by
        have hfield : field 345 155 (setField 0 100 (bytes s) ops.newUstar) = field 345 155 ops.newUstar :=
          field_setField_of_ge (by decide)
        show (if _ ∧ trimNul (field 345 155 (setField 0 100 (bytes s) ops.newUstar)) ≠ [] then _ else
          trimNul (field 0 100 (setField 0 100 (bytes s) ops.newUstar))) = _
        rw [hfield, hprefix, if_neg (by simp), field_setField_self (by decide), trimNul_fit hcond.1]
      unfold HeaderOps.view
      rw [hpath]
      simp only [HeaderView.mk.injEq, true_and]
      exact ⟨by simp (disch := decide) only [ops, field_setField_of_ge],
        by simp (disch := decide) only [ops, field_setField_of_ge],
        by simp (disch := decide) only [ops, field_setField_of_ge],
        by simp (disch := decide) only [ops, field_setField_of_ge]⟩
    · cases hs
  case setUsername =>
    intro h s h' hs
    replace hs : (if Fits 32 (bytes s) then some (setField 265 32 (bytes s) h) else none) = some h' := hs
    split at hs
    · cases hs
      simp (disch := decide) only [HeaderOps.view, ops, field_setField_of_le, field_setField_of_ge]
    · cases hs
  case setGroupname =>
    intro h s h' hs
    replace hs : (if Fits 32 (bytes s) then some (setField 297 32 (bytes s) h) else none) = some h' := hs
    split at hs
    · cases hs
      simp (disch := decide) only [HeaderOps.view, ops, field_setField_of_le, field_setField_of_ge]
    · cases hs
  case setMode =>
    intro h m
    simp (disch := decide) only [HeaderOps.view, ops, field_setField_of_le, field_setField_of_ge]
  case setUid =>
    intro h n
    simp (disch := decide) only [HeaderOps.view, ops, field_setField_of_le, field_setField_of_ge]
  case setGid =>
    intro h n
    simp (disch := decide) only [HeaderOps.view, ops, field_setField_of_le, field_setField_of_ge]
  case setMtime =>
    intro h n
    simp (disch := decide) only [HeaderOps.view, ops, field_setField_of_le, field_setField_of_ge]

/-! ## Layers -/

/-- One member: its header and its padded payload. -/
def member (path : String) (type : EntryType) (link : String) (payload : Bytes) : Bytes :=
  let header := ops.setEntryType (setField 0 100 (bytes path) ops.newUstar) type
  let header := ops.setSize (setField 157 100 (bytes link) header) payload.length
  (ops.setCksum header).1 ++ payload ++ zeros (paddingFor payload.length)

/-- A layer of members, closed by two zero blocks. -/
def layer (label : String) (members : List Bytes) : LayerSource :=
  ⟨label, .ok ⟨members.flatten ++ zeros 1024, false⟩⟩

end Ustar

end Firestone.Oci
