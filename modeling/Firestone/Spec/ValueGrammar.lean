import Firestone.Lib.Patterns
import Firestone.Spec.Document

/-!
# The grammar of spec values

What the readers of two kinds of values accept, among all texts.

* `ByteSize.Constructible` — the sizes there can be; `ByteSize.sizes_exact` says that they are whole numbers of MiB, that a
  text stands for the number and the unit written in it, and that a printed size is read back.
* `macPattern` — the pattern that the schema publishes for MAC addresses.
* `MacAddr.fromStr_isSome_iff` — what the reader accepts: it takes a plus sign for a digit.
* `MacAddr.grammar_iff` — the reader keeps to the pattern exactly on texts without that sign.
-/

namespace Firestone

open Firestone.Lib Firestone.Lib.Patterns

/-! ## Sizes -/

/-- `ByteSize::from_mib`. -/
def ByteSize.fromMib (value : UInt64) : Option ByteSize := ByteSize.fromUnits ByteSize.mib value.toNat

/-- `ByteSize::from_gib`. -/
def ByteSize.fromGib (value : UInt64) : Option ByteSize := ByteSize.fromUnits ByteSize.gib value.toNat

def ByteSize.minimumMemory : ByteSize := ⟨128 * ByteSize.mib⟩

/-- The sizes that the functions and constants of the type make. -/
inductive ByteSize.Constructible : ByteSize → Prop
  | fromMib {value : UInt64} {size : ByteSize} : ByteSize.fromMib value = some size → Constructible size
  | fromGib {value : UInt64} {size : ByteSize} : ByteSize.fromGib value = some size → Constructible size
  | fromStr {text : String} {size : ByteSize} : ByteSize.fromStr text = some size → Constructible size
  | decode {value : Toml} {size : ByteSize} : ByteSize.decode value = some size → Constructible size
  | builtinMemory : Constructible .builtinMemory
  | builtinDisk : Constructible .builtinDisk
  | minimumMemory : Constructible .minimumMemory

/-- The unit that the end of a text names. -/
inductive ByteSize.UnitText : List Char → Nat → Prop
  | none : UnitText [] (2 ^ 20)
  | mib {c : Char} : c = 'M' ∨ c = 'm' → UnitText [c] (2 ^ 20)
  | gib {c : Char} : c = 'G' ∨ c = 'g' → UnitText [c] (2 ^ 30)

/-- The text is a number in decimal digits and a unit, apart from white space around them. -/
structure ByteSize.Written (text : String) (number unit : Nat) : Prop where
  parts : ∃ digits letters, (trim text).toList = digits ++ letters ∧ UnitText letters unit ∧ digits ≠ [] ∧
    (∀ c ∈ digits, c.isDigit = true) ∧ number = Nat.ofDigitChars 10 digits 0

theorem parseDigits_eq_some {bound n : Nat} {digits : List Char} (h : parseDigits bound digits = some n) :
    digits ≠ [] ∧ (∀ c ∈ digits, c.isDigit = true) ∧ n = Nat.ofDigitChars 10 digits 0 ∧ n < bound := by
  unfold parseDigits at h
  split at h
  · rename_i hdigits
    simp only at h
    split at h
    · rename_i hlt
      cases h
      exact ⟨hdigits.1, List.all_eq_true.mp hdigits.2, rfl, hlt⟩
    · cases h
  · cases h

theorem ByteSize.fromUnits_eq_some {unit : UInt64} {value : Nat} {size : ByteSize} (h : fromUnits unit value = some size) :
    value * unit.toNat < 2 ^ 64 ∧ size.bytes.toNat = value * unit.toNat := by
  unfold fromUnits at h
  split at h
  · rename_i hlt
    cases h
    exact ⟨hlt, UInt64.toNat_ofNat_of_lt' hlt⟩
  · cases h

theorem ByteSize.fromNumber_eq_some {digits : List Char} {unit : UInt64} {size : ByteSize}
    (h : fromNumber digits unit = some size) :
    digits ≠ [] ∧ (∀ c ∈ digits, c.isDigit = true) ∧ Nat.ofDigitChars 10 digits 0 * unit.toNat < 2 ^ 64 ∧
      size.bytes.toNat = Nat.ofDigitChars 10 digits 0 * unit.toNat := by
  obtain ⟨n, hn, hsize⟩ := Option.bind_eq_some_iff.mp h
  obtain ⟨hne, hall, rfl, -⟩ := parseDigits_eq_some hn
  obtain ⟨hlt, hbytes⟩ := fromUnits_eq_some hsize
  exact ⟨hne, hall, hlt, hbytes⟩

/-- A text that is read is a number and a unit, whose product fits and is the value. -/
theorem ByteSize.fromStr_eq_some {text : String} {size : ByteSize} (h : fromStr text = some size) :
    ∃ number unit, Written text number unit ∧ number * unit < 2 ^ 64 ∧ size.bytes.toNat = number * unit ∧
      2 ^ 20 ∣ unit := by
  have hmib : ByteSize.mib.toNat = 2 ^ 20 := by decide
  have hgib : ByteSize.gib.toNat = 2 ^ 30 := by decide
  unfold fromStr at h
  simp only at h
  split at h
  · rename_i last hlast
    have hparts : (trim text).toList = (trim text).toList.dropLast ++ [last] :=
      (List.dropLast_append_getLast? last hlast).symm
    split at h
    · rename_i hunit
      obtain ⟨hne, hall, hlt, hbytes⟩ := fromNumber_eq_some h
      rw [hmib] at hlt hbytes
      exact ⟨_, _, ⟨_, _, hparts, .mib hunit, hne, hall, rfl⟩, hlt, hbytes, Nat.dvd_refl _⟩
    split at h
    · rename_i hunit
      obtain ⟨hne, hall, hlt, hbytes⟩ := fromNumber_eq_some h
      rw [hgib] at hlt hbytes
      exact ⟨_, _, ⟨_, _, hparts, .gib hunit, hne, hall, rfl⟩, hlt, hbytes, by decide⟩
    split at h
    · obtain ⟨hne, hall, hlt, hbytes⟩ := fromNumber_eq_some h
      rw [hmib] at hlt hbytes
      exact ⟨_, _, ⟨_, _, (List.append_nil _).symm, .none, hne, hall, rfl⟩, hlt, hbytes, Nat.dvd_refl _⟩
    · cases h
  · cases h

/-- A multiple of a unit that is a whole number of MiB. -/
theorem ByteSize.wf_of_dvd {size : ByteSize} (h : 2 ^ 20 ∣ size.bytes.toNat) : size.Wf := by
  refine UInt64.toNat_inj.mp ?_
  rw [UInt64.toNat_mod]
  exact Nat.mod_eq_zero_of_dvd h

theorem ByteSize.dvd_of_fromUnits {unit : UInt64} {value : Nat} {size : ByteSize} (hunit : 2 ^ 20 ∣ unit.toNat)
    (h : fromUnits unit value = some size) : 2 ^ 20 ∣ size.bytes.toNat := by
  rw [(fromUnits_eq_some h).2]
  exact Nat.dvd_mul_left_of_dvd hunit value

theorem ByteSize.dvd_of_fromStr {text : String} {size : ByteSize} (h : fromStr text = some size) :
    2 ^ 20 ∣ size.bytes.toNat := by
  obtain ⟨number, unit, -, -, hbytes, hunit⟩ := fromStr_eq_some h
  rw [hbytes]
  exact Nat.dvd_mul_left_of_dvd hunit number

/-- Every constructor keeps to whole MiB. -/
theorem ByteSize.Constructible.dvd {size : ByteSize} (h : Constructible size) : 2 ^ 20 ∣ size.bytes.toNat := by
  cases h with
  | fromMib h => exact dvd_of_fromUnits (by decide) h
  | fromGib h => exact dvd_of_fromUnits (by decide) h
  | fromStr h => exact dvd_of_fromStr h
  | decode h =>
    unfold ByteSize.decode at h
    split at h
    · split at h
      · exact dvd_of_fromUnits (by decide) h
      · cases h
    · exact dvd_of_fromStr h
    · cases h
  | builtinMemory => decide
  | builtinDisk => decide
  | minimumMemory => decide

/-- **Sizes are exact**: a text that is read stands for its number times its unit, which fits in 64 bits; every size there
can be is a whole number of MiB and is read back from its printed text. -/
theorem ByteSize.sizes_exact (text : String) (size : ByteSize) :
    (fromStr text = some size → ∃ number unit, Written text number unit ∧ number * unit < 2 ^ 64 ∧
      size.bytes.toNat = number * unit ∧ 2 ^ 20 ∣ size.bytes.toNat) ∧
    (Constructible size → 2 ^ 20 ∣ size.bytes.toNat ∧ fromStr size.display = some size) := by
  constructor
  · intro h
    obtain ⟨number, unit, hwritten, hlt, hbytes, -⟩ := fromStr_eq_some h
    exact ⟨number, unit, hwritten, hlt, hbytes, dvd_of_fromStr h⟩
  · exact fun h => ⟨h.dvd, fromStr_display (wf_of_dvd h.dvd)⟩

/-- A text, and the size that it stands for. -/
theorem ByteSize.sizes_exact_memory :
    (∃ number unit, Written "512M" number unit ∧ number * unit < 2 ^ 64 ∧ 536870912 = number * unit ∧ 2 ^ 20 ∣ 536870912) ∧
      fromStr (ByteSize.display ⟨536870912⟩) = some ⟨536870912⟩ := by
  have hread : fromStr "512M" = some ⟨536870912⟩ := by decide
  exact ⟨(sizes_exact "512M" ⟨536870912⟩).1 hread, ((sizes_exact "512M" ⟨536870912⟩).2 (.fromStr hread)).2⟩

/-! ## MAC addresses -/

/-- `[0-9A-Fa-f]` -/
def macDigit : Language Char := oneOf fun c => '0' ≤ c ∧ c ≤ '9' ∨ 'A' ≤ c ∧ c ≤ 'F' ∨ 'a' ≤ c ∧ c ≤ 'f'

/-- `^[0-9A-Fa-f]{2}(:[0-9A-Fa-f]{2}){5}$` -/
def macPattern : Language Char := groups ':' (macDigit * macDigit) 5

/-- What the reader takes for an octet: two digits, or a plus sign and a digit. -/
def macOctet : Language Char := macDigit * macDigit + oneOf (· = '+') * macDigit

theorem toDigit_isSome_iff {c : Char} :
    (toDigit 16 c).isSome = true ↔ '0' ≤ c ∧ c ≤ '9' ∨ 'A' ≤ c ∧ c ≤ 'F' ∨ 'a' ≤ c ∧ c ≤ 'f' := by
  have hle : ∀ a b : Char, a ≤ b ↔ a.toNat ≤ b.toNat := fun a b => Iff.rfl
  have hfilter : ∀ n : Nat, ((some n).filter (· < 16)).isSome = true ↔ n < 16 := fun n => by
    by_cases hn : n < 16 <;> simp [hn]
  simp only [toDigit, hle, Char.reduceToNat]
  split_ifs with hdigit hlower hupper
  · exact (hfilter _).trans (by omega)
  · exact (hfilter _).trans (by omega)
  · exact (hfilter _).trans (by omega)
  · exact ⟨fun h => (by cases h), fun h => absurd h (by omega)⟩

theorem digit_utf8Size {c : Char} (h : (toDigit 16 c).isSome = true) : c.utf8Size = 1 := by
  have hle : ∀ a b : Char, a ≤ b ↔ a.toNat ≤ b.toNat := fun a b => Iff.rfl
  rw [toDigit_isSome_iff] at h
  simp only [hle, Char.reduceToNat] at h
  refine Char.utf8Size_eq_one_iff.mpr ?_
  have hval : c.toNat ≤ 127 := by omega
  exact hval

theorem digit_lt {c : Char} {d : Nat} (h : toDigit 16 c = some d) : d < 16 := by
  unfold toDigit at h
  exact by simpa using (Option.filter_eq_some_iff.mp h).2

/-- Text of `n` bytes made of digits has `n` of them. -/
theorem length_of_digits {ds : List Char} (h : ∀ c ∈ ds, (toDigit 16 c).isSome = true) :
    (String.ofList ds).utf8ByteSize = ds.length := by
  induction ds with
  | nil => rfl
  | cons c ds ih =>
    obtain ⟨hc, hrest⟩ := List.forall_mem_cons.mp h
    have hsize := ih hrest
    rw [String.utf8ByteSize_ofList] at hsize ⊢
    rw [String.utf8Len_cons, hsize, digit_utf8Size hc, List.length_cons]

theorem mem_macDigit_mul {l : Language Char} {w : List Char} :
    w ∈ macDigit * l ↔ ∃ c rest, (toDigit 16 c).isSome = true ∧ rest ∈ l ∧ w = c :: rest := by
  simp only [macDigit, mem_oneOf_mul, toDigit_isSome_iff]

theorem mem_macDigit {w : List Char} : w ∈ macDigit ↔ ∃ c, (toDigit 16 c).isSome = true ∧ w = [c] := by
  simp only [macDigit, mem_oneOf, toDigit_isSome_iff]

/-- An integer parser reads what follows a plus sign, or everything. -/
theorem fromStrRadix_cases (radix bound : Nat) (s : List Char) : ∃ digits,
    (s = '+' :: digits ∧ digits ≠ [] ∨ s = digits ∧ ∀ d ds, s ≠ '+' :: d :: ds) ∧
    fromStrRadix radix bound s = if digits ≠ [] ∧ (digits.all fun c => (toDigit radix c).isSome) = true then
      if digitsFrom radix 0 digits < bound then some (digitsFrom radix 0 digits) else none else none := by
  refine ⟨_, ?_, rfl⟩
  split
  · exact .inl ⟨rfl, List.cons_ne_nil _ _⟩
  · rename_i hplain
    exact .inr ⟨rfl, hplain⟩

theorem fromStrRadix_isSome_iff {s : List Char} : (fromStrRadix 16 256 s).isSome = true ↔
    ∃ digits, (s = digits ∨ s = '+' :: digits) ∧ digits ≠ [] ∧ (∀ c ∈ digits, (toDigit 16 c).isSome = true) ∧
      digitsFrom 16 0 digits < 256 := by
  have hplus : (toDigit 16 '+').isSome = false := by decide
  obtain ⟨digits, hs, hread⟩ := fromStrRadix_cases 16 256 s
  rw [hread]
  constructor
  · intro h
    split_ifs at h with hall hlt
    · exact ⟨digits, hs.symm.imp And.left And.left, hall.1, List.all_eq_true.mp hall.2, hlt⟩
    · cases h
    · cases h
  · rintro ⟨other, hother, hne, hall, hlt⟩
    have heq : digits = other := by
      rcases hs with ⟨rfl, -⟩ | ⟨rfl, hplain⟩
      · rcases hother with rfl | hother
        · rw [hall '+' List.mem_cons_self] at hplus
          cases hplus
        · exact (List.cons.inj hother).2
      · rcases hother with hother | rfl
        · exact hother
        · obtain ⟨d, ds, rfl⟩ := List.exists_cons_of_ne_nil hne
          exact absurd rfl (hplain d ds)
    subst heq
    rw [if_pos ⟨hne, List.all_eq_true.mpr hall⟩, if_pos hlt]
    rfl

/-- A group is read when it is two digits, or a plus sign and one. -/
theorem MacAddr.octet_isSome_iff (part : String) : (MacAddr.octet part).isSome = true ↔ part.toList ∈ macOctet := by
  have hsize : part.utf8ByteSize = String.utf8Len part.toList := by
    rw [← String.utf8ByteSize_ofList, String.ofList_toList]
  have hbytes : ∀ ds, (∀ c ∈ ds, (toDigit 16 c).isSome = true) → String.utf8Len ds = ds.length := fun ds h => by
    rw [← String.utf8ByteSize_ofList, length_of_digits h]
  have hmem : part.toList ∈ macOctet ↔ (∃ c d, (toDigit 16 c).isSome = true ∧ (toDigit 16 d).isSome = true ∧
      part.toList = [c, d]) ∨ ∃ d, (toDigit 16 d).isSome = true ∧ part.toList = ['+', d] := by
    rw [macOctet, Language.mem_add, mem_macDigit_mul, mem_oneOf_mul]
    simp [mem_macDigit]
  unfold MacAddr.octet
  rw [hmem, hsize]
  constructor
  · intro h
    split_ifs at h with hlen
    · cases h
    · rw [Option.isSome_map, fromStrRadix_isSome_iff] at h
      obtain ⟨digits, hs | hs, hne, hall, -⟩ := h
      · rw [hs, hbytes digits hall, Classical.not_not] at hlen
        obtain ⟨c, d, rfl⟩ := List.length_eq_two.mp hlen
        exact .inl ⟨c, d, hall c (by simp), hall d (by simp), hs⟩
      · have hsign : '+'.utf8Size = 1 := by decide
        rw [hs, String.utf8Len_cons, hbytes digits hall, hsign, Classical.not_not] at hlen
        obtain ⟨d, rfl⟩ := List.length_eq_one_iff.mp (show digits.length = 1 by omega)
        exact .inr ⟨d, hall d (by simp), hs⟩
  · intro h
    rcases h with ⟨c, d, hc, hd, hs⟩ | ⟨d, hd, hs⟩
    · have hall : ∀ x ∈ [c, d], (toDigit 16 x).isSome = true := by simp [hc, hd]
      obtain ⟨m, hm⟩ := Option.isSome_iff_exists.mp hc
      obtain ⟨n, hn⟩ := Option.isSome_iff_exists.mp hd
      have hvalue : digitsFrom 16 0 [c, d] < 256 := by
        have hmlt := digit_lt hm
        have hnlt := digit_lt hn
        simp only [digitsFrom, List.foldl_cons, List.foldl_nil, hm, hn, Option.getD_some]
        omega
      rw [hs, hbytes _ hall, if_neg (by simp), Option.isSome_map, fromStrRadix_isSome_iff]
      exact ⟨[c, d], .inl rfl, by simp, hall, hvalue⟩
    · have hall : ∀ x ∈ [d], (toDigit 16 x).isSome = true := by simp [hd]
      obtain ⟨n, hn⟩ := Option.isSome_iff_exists.mp hd
      have hsign : '+'.utf8Size = 1 := by decide
      have hvalue : digitsFrom 16 0 [d] < 256 := by
        have hnlt := digit_lt hn
        simp only [digitsFrom, List.foldl_cons, List.foldl_nil, hn, Option.getD_some]
        omega
      rw [hs, String.utf8Len_cons, hbytes _ hall, hsign, if_neg (by simp), Option.isSome_map, fromStrRadix_isSome_iff]
      exact ⟨[d], .inr rfl, by simp, hall, hvalue⟩

theorem MacAddr.fromStr_isSome_parts (value : String) : (fromStr value).isSome = true ↔
    (splitText ':' value).length = 6 ∧ ∀ part ∈ splitText ':' value, (octet part).isSome = true := by
  unfold fromStr
  generalize splitText ':' value = parts
  split
  · rename_i a b c d e f
    simp [Option.isSome_iff_exists, Option.bind_eq_some_iff]
  · rename_i hsix
    have hlen : parts.length ≠ 6 := by
      intro hlen
      match parts, hlen with
      | [a, b, c, d, e, f], _ => exact hsix a b c d e f rfl
    simp [hlen]

theorem colon_not_mem_macOctet : ∀ w ∈ macOctet, ':' ∉ w := by
  have hdigit : ∀ c, (toDigit 16 c).isSome = true → c ≠ ':' := by
    rintro _ hc rfl
    revert hc
    decide
  intro w hw
  rw [macOctet, Language.mem_add, mem_macDigit_mul, mem_oneOf_mul] at hw
  rcases hw with ⟨c, rest, hc, hrest, rfl⟩ | ⟨_, rest, rfl, hrest, rfl⟩
  · obtain ⟨d, hd, rfl⟩ := mem_macDigit.mp hrest
    simp [(hdigit c hc).symm, (hdigit d hd).symm]
  · obtain ⟨d, hd, rfl⟩ := mem_macDigit.mp hrest
    simp [(hdigit d hd).symm]

theorem MacAddr.fromStr_isSome_iff (value : String) :
    (fromStr value).isSome = true ↔ value.toList ∈ groups ':' macOctet 5 := by
  rw [fromStr_isSome_parts, mem_groups_iff colon_not_mem_macOctet, splitText, List.length_map, List.forall_mem_map]
  simp only [octet_isSome_iff, String.toList_ofList]

/-- A text of the pattern is one that the reader accepts and that has no plus sign. -/
theorem mem_macPattern_iff {w : List Char} : w ∈ macPattern ↔ w ∈ groups ':' macOctet 5 ∧ '+' ∉ w := by
  have hplus : ∀ c, (toDigit 16 c).isSome = true → c ≠ '+' := by
    rintro _ hc rfl
    revert hc
    decide
  have hpair : ∀ p, p ∈ macDigit * macDigit ↔ p ∈ macOctet ∧ '+' ∉ p := by
    intro p
    rw [macOctet, Language.mem_add, mem_oneOf_mul, mem_macDigit_mul]
    constructor
    · rintro ⟨c, rest, hc, hrest, rfl⟩
      obtain ⟨d, hd, rfl⟩ := mem_macDigit.mp hrest
      refine ⟨.inl ⟨c, [d], hc, hrest, rfl⟩, ?_⟩
      simp [(hplus c hc).symm, (hplus d hd).symm]
    · rintro ⟨h | ⟨_, rest, rfl, -, rfl⟩, hno⟩
      · exact h
      · exact absurd List.mem_cons_self hno
  have hcolon : ∀ p ∈ macDigit * macDigit, ':' ∉ p := fun p hp => colon_not_mem_macOctet p ((hpair p).mp hp).1
  rw [macPattern, mem_groups_iff hcolon, mem_groups_iff colon_not_mem_macOctet]
  constructor
  · rintro ⟨hlen, hall⟩
    refine ⟨⟨hlen, fun p hp => ((hpair p).mp (hall p hp)).1⟩, fun hmem => ?_⟩
    rcases mem_splitOn (x := ':') hmem with heq | ⟨p, hp, hin⟩
    · cases heq
    · exact ((hpair p).mp (hall p hp)).2 hin
  · rintro ⟨⟨hlen, hall⟩, hno⟩
    exact ⟨hlen, fun p hp => (hpair p).mpr ⟨hall p hp, fun hin => hno (mem_of_mem_splitOn hp hin)⟩⟩

/-- **MAC addresses are read by their grammar** exactly on the texts that are not six groups of two digits, or of a plus
sign and a digit, with such a sign in one of them. -/
theorem MacAddr.grammar_iff (value : String) :
    (((fromStr value).isSome = true ↔ value.toList ∈ macPattern) ∧
      ∀ mac, fromStr value = some mac → fromStr mac.display = some mac) ↔
    ¬ (value.toList ∈ groups ':' macOctet 5 ∧ '+' ∈ value.toList) := by
  have hround : ∀ mac, fromStr value = some mac → fromStr mac.display = some mac := fun mac _ => fromStr_display mac
  rw [fromStr_isSome_iff, mem_macPattern_iff, and_iff_left hround]
  tauto

/-- A text with a plus sign is accepted. -/
theorem MacAddr.grammar_plus : ¬ ∀ value : String, ((fromStr value).isSome = true ↔ value.toList ∈ macPattern) ∧
    ∀ mac, fromStr value = some mac → fromStr mac.display = some mac := by
  intro h
  have hread : (fromStr "+1:00:00:00:00:00").isSome = true := by decide
  have hmem := (mem_macPattern_iff.mp ((h _).1.mp hread)).2
  exact hmem (by decide)

end Firestone
