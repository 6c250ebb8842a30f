import Mathlib.Data.List.Basic
import Mathlib.Data.Nat.Digits.Defs
import Mathlib.Tactic.Common

/-!
# Internet addresses as text

The printer and the reader of IPv4 and IPv6 addresses as a standard library has them. An address is the list of its
four octets or of its eight segments.

* `readNumber` — digits of a radix, bounded in value and number; it reads back what `Nat.toDigits` prints.
* `showV4`, `readV4`, `showV6`, `readV6` — an IPv6 address is printed with its longest run of zero segments left out,
  and an IPv4-mapped one with its last two segments as an IPv4 address.
* `readV4_showV4`, `readV6_showV6` — reading gives the address back.
* `readV4_reads`, `readV6_reads` — an address has no characters but digits, points and colons.
-/

namespace Firestone.Lib

/-! ## Numbers -/

/-- The value of a digit of a radix, letters in either case. -/
def toDigit (radix : Nat) (c : Char) : Option Nat :=
  let digit :=
    if '0' ≤ c ∧ c ≤ '9' then some (c.toNat - '0'.toNat)
    else if 'a' ≤ c ∧ c ≤ 'z' then some (c.toNat - 'a'.toNat + 10)
    else if 'A' ≤ c ∧ c ≤ 'Z' then some (c.toNat - 'A'.toNat + 10)
    else none
  digit.filter (· < radix)

/-- Reads digits as long as there are any: the value below `bound`, how many were read, and the rest. More than
`maxDigits` are refused. -/
@[grind =] def readDigits (radix bound maxDigits : Nat) : Nat → Nat → List Char → Option (Nat × Nat × List Char)
  | value, count, [] => some (value, count, [])
  | value, count, c :: rest =>
    match toDigit radix c with
    | none => some (value, count, c :: rest)
    | some d =>
      if bound ≤ value * radix + d ∨ maxDigits < count + 1 then none
      else readDigits radix bound maxDigits (value * radix + d) (count + 1) rest

def readNumber (radix bound maxDigits : Nat) (allowZeroPrefix : Bool) (s : List Char) : Option (Nat × List Char) := do
  let (value, count, rest) ← readDigits radix bound maxDigits 0 0 s
  if count = 0 then none
  else if !allowZeroPrefix && s.head? == some '0' && decide (1 < count) then none
  else some (value, rest)

/-- No digit comes next. -/
def NoDigit (radix : Nat) (s : List Char) : Prop := ∀ c, s.head? = some c → toDigit radix c = none

theorem noDigit_nil (radix : Nat) : NoDigit radix [] := fun c hc => by cases hc

theorem noDigit_cons {radix : Nat} {c : Char} (s : List Char) (h : toDigit radix c = none) : NoDigit radix (c :: s) := by
  intro c' hc'
  cases hc'
  exact h

theorem readDigits_noDigit {radix bound maxDigits value count : Nat} {s : List Char} (h : NoDigit radix s) :
    readDigits radix bound maxDigits value count s = some (value, count, s) := by
  cases s with
  | nil => rfl
  | cons c rest => rw [readDigits, h c rfl]

theorem readNumber_noDigit {radix bound maxDigits : Nat} {zero : Bool} {s : List Char} (h : NoDigit radix s) :
    readNumber radix bound maxDigits zero s = none := by
  rw [readNumber, readDigits_noDigit h]
  rfl

/-- The value of digit characters after `value`. -/
def digitsFrom (radix : Nat) (value : Nat) (ds : List Char) : Nat :=
  ds.foldl (fun acc c => acc * radix + (toDigit radix c).getD 0) value

theorem le_digitsFrom {radix value : Nat} (hr : 0 < radix) (ds : List Char) : value ≤ digitsFrom radix value ds := by
  induction ds generalizing value with
  | nil => exact Nat.le_refl _
  | cons c ds ih =>
    rw [digitsFrom, List.foldl_cons]
    exact Nat.le_trans (Nat.le_trans (Nat.le_mul_of_pos_right _ hr) (Nat.le_add_right _ _)) ih

/-- Digits whose value and number are within the bounds are read. -/
theorem readDigits_append {radix bound maxDigits : Nat} (hr : 0 < radix) {rest : List Char} (hrest : NoDigit radix rest)
    (ds : List Char) : ∀ {value count : Nat}, (∀ c ∈ ds, (toDigit radix c).isSome) →
    digitsFrom radix value ds < bound → count + ds.length ≤ maxDigits →
    readDigits radix bound maxDigits value count (ds ++ rest) =
      some (digitsFrom radix value ds, count + ds.length, rest) := by
  induction ds with
  | nil =>
    intro value count _ _ _
    exact readDigits_noDigit hrest
  | cons c ds ih =>
    intro value count hdigits hbound hmax
    obtain ⟨d, hd⟩ := Option.isSome_iff_exists.mp (hdigits c List.mem_cons_self)
    have hvalue : digitsFrom radix value (c :: ds) = digitsFrom radix (value * radix + d) ds := by
      rw [digitsFrom, List.foldl_cons, hd]
      rfl
    rw [hvalue] at hbound
    rw [List.length_cons] at hmax
    have hle : value * radix + d ≤ digitsFrom radix (value * radix + d) ds := le_digitsFrom hr ds
    rw [List.cons_append, readDigits, hd]
    simp only
    rw [if_neg (by omega), ih (fun x hx => hdigits x (List.mem_cons_of_mem _ hx)) hbound (by omega), hvalue,
      List.length_cons]
    congr 3
    omega

theorem toDigit_digitChar {radix n : Nat} (hr : radix ≤ 16) (h : n < radix) : toDigit radix (Nat.digitChar n) = some n := by
  have hchars : ∀ m < 16, toDigit 36 (Nat.digitChar m) = some m := by decide
  have hn := hchars n (by omega)
  simp only [toDigit, Option.filter_eq_some_iff] at hn ⊢
  exact ⟨hn.1, by simpa using h⟩

theorem toDigits_spec {radix : Nat} (h1 : 1 < radix) (hr : radix ≤ 16) (n : Nat) :
    (∀ c ∈ Nat.toDigits radix n, (toDigit radix c).isSome) ∧ digitsFrom radix 0 (Nat.toDigits radix n) = n := by
  induction n using Nat.strong_induction_on with
  | _ n ih =>
    by_cases hlt : n < radix
    · rw [Nat.toDigits_of_lt_base hlt]
      simp [digitsFrom, toDigit_digitChar hr hlt]
    · have hdiv : n / radix < n := Nat.div_lt_self (by omega) h1
      have hmod : n % radix < radix := Nat.mod_lt _ (by omega)
      obtain ⟨hall, hvalue⟩ := ih _ hdiv
      rw [Nat.toDigits_of_base_le h1 (by omega)]
      constructor
      · intro c hc
        rcases List.mem_append.mp hc with hc | hc
        · exact hall c hc
        · rw [List.mem_singleton.mp hc, toDigit_digitChar hr hmod]
          rfl
      · rw [digitsFrom, List.foldl_append]
        unfold digitsFrom at hvalue
        rw [hvalue, List.foldl_cons, List.foldl_nil, toDigit_digitChar hr hmod, Option.getD_some, Nat.mul_comm]
        exact Nat.div_add_mod n radix

/-- A printed number with a bounded number of digits is read back. -/
theorem readNumber_toDigits {radix maxDigits n : Nat} {zero : Bool} {rest : List Char} (h1 : 1 < radix) (hr : radix ≤ 16)
    {bound : Nat} (hn : n < bound) (hmax : (Nat.toDigits radix n).length ≤ maxDigits) (hrest : NoDigit radix rest)
    (hzero : zero = false → (Nat.toDigits radix n).head? = some '0' → (Nat.toDigits radix n).length ≤ 1) :
    readNumber radix bound maxDigits zero (Nat.toDigits radix n ++ rest) = some (n, rest) := by
  obtain ⟨hall, hvalue⟩ := toDigits_spec h1 hr n
  have hne : Nat.toDigits radix n ≠ [] := Nat.toDigits_ne_nil
  have hlength : 0 + (Nat.toDigits radix n).length ≤ maxDigits := by omega
  have hbound : digitsFrom radix 0 (Nat.toDigits radix n) < bound := by omega
  have hread := readDigits_append (by omega) hrest (Nat.toDigits radix n) hall hbound hlength
  have hhead : (Nat.toDigits radix n ++ rest).head? = (Nat.toDigits radix n).head? := by
    rw [List.head?_append]
    cases hd : Nat.toDigits radix n with
    | nil => exact absurd hd hne
    | cons c ds => rfl
  have hpos : 0 < (Nat.toDigits radix n).length := List.length_pos_iff.mpr hne
  rw [readNumber, hread, hvalue, hhead]
  simp only [Option.bind_eq_bind, Option.bind_some, Nat.zero_add]
  rw [if_neg (by omega), if_neg ?_]
  intro hbad
  simp only [Bool.and_eq_true, Bool.not_eq_true', beq_iff_eq, decide_eq_true_eq] at hbad
  have := hzero hbad.1.1 hbad.1.2
  omega

/-! ## Readers and printers -/

/-- A separator before every item but the first, which has index 0. -/
def readSeparator {α : Type} (sep : Char) (index : Nat) (inner : List Char → Option (α × List Char)) (s : List Char) :
    Option (α × List Char) :=
  if index = 0 then inner s
  else match s with
    | c :: rest => if c = sep then inner rest else none
    | [] => none

/-- An octet has no superfluous zero. -/
def readOctet (s : List Char) : Option (Nat × List Char) := readNumber 10 256 3 false s

def readV4 (s : List Char) : Option (List Nat × List Char) := do
  let (a, s) ← readSeparator '.' 0 readOctet s
  let (b, s) ← readSeparator '.' 1 readOctet s
  let (c, s) ← readSeparator '.' 2 readOctet s
  let (d, s) ← readSeparator '.' 3 readOctet s
  some ([a, b, c, d], s)

def readGroup (s : List Char) : Option (Nat × List Char) := readNumber 16 65536 4 true s

/-- The two segments of an IPv4 address. -/
def segmentsOfV4 : List Nat → List Nat
  | [a, b, c, d] => [a * 256 + b, c * 256 + d]
  | _ => []

/-- Reads up to so many groups from an index on; an IPv4 address may stand for the last two of them. Returns the groups,
whether they end in an IPv4 address, and the rest. -/
@[grind =] def readGroups : Nat → Nat → List Char → List Nat × Bool × List Char
  | 0, _, s => ([], false, s)
  | left + 1, index, s =>
    match if 1 ≤ left then readSeparator ':' index readV4 s else none with
    | some (v4, rest) => (segmentsOfV4 v4, true, rest)
    | none =>
      match readSeparator ':' index readGroup s with
      | some (group, rest) =>
        let (groups, v4, rest) := readGroups left (index + 1) rest
        (group :: groups, v4, rest)
      | none => ([], false, s)

def readV6 (s : List Char) : Option (List Nat × List Char) :=
  let (head, v4, rest) := readGroups 8 0 s
  if head.length = 8 then some (head, rest)
  else if v4 then none
  else match rest with
    | ':' :: ':' :: rest =>
      let (tail, _, rest) := readGroups (8 - (head.length + 1)) 0 rest
      some (head ++ List.replicate (8 - head.length - tail.length) 0 ++ tail, rest)
    | _ => none

def showV4 : List Nat → List Char
  | [a, b, c, d] => Nat.toDigits 10 a ++ '.' :: (Nat.toDigits 10 b ++ '.' :: (Nat.toDigits 10 c ++ '.' :: Nat.toDigits 10 d))
  | _ => []

/-- A run of segments. -/
structure Span where
  start : Nat
  len : Nat
  deriving DecidableEq, Repr

/-- The first of the longest runs of zero segments. -/
@[grind =] def longestZeros : List Nat → Nat → Span → Span → Span
  | [], _, longest, _ => longest
  | segment :: rest, i, longest, current =>
    if segment = 0 then
      let current : Span := ⟨if current.len = 0 then i else current.start, current.len + 1⟩
      longestZeros rest (i + 1) (if longest.len < current.len then current else longest) current
    else longestZeros rest (i + 1) longest ⟨0, 0⟩

/-- Segments with colons between them. -/
@[grind =] def showGroups : List Nat → List Char
  | [] => []
  | [g] => Nat.toDigits 16 g
  | g :: gs => Nat.toDigits 16 g ++ ':' :: showGroups gs

def showV6 (segments : List Nat) : List Char :=
  match segments with
  | [0, 0, 0, 0, 0, 0xffff, g, h] => "::ffff:".toList ++ showV4 [g / 256, g % 256, h / 256, h % 256]
  | _ =>
    let zeroes := longestZeros segments 0 ⟨0, 0⟩ ⟨0, 0⟩
    if 1 < zeroes.len then
      showGroups (segments.take zeroes.start) ++ "::".toList ++ showGroups (segments.drop (zeroes.start + zeroes.len))
    else showGroups segments

/-! ## Reading an address back -/

theorem readOctet_toDigits {n : Nat} {rest : List Char} (hn : n < 256) (hrest : NoDigit 10 rest) :
    readOctet (Nat.toDigits 10 n ++ rest) = some (n, rest) := by
  have hfacts : ∀ m < 256, (Nat.toDigits 10 m).length ≤ 3 ∧
      ((Nat.toDigits 10 m).head? = some '0' → (Nat.toDigits 10 m).length ≤ 1) := by
    decide +kernel
  obtain ⟨hlen, hzero⟩ := hfacts n hn
  exact readNumber_toDigits (by decide) (by decide) hn hlen hrest fun _ => hzero

theorem noDigit_dot (s : List Char) : NoDigit 10 ('.' :: s) := noDigit_cons s (by decide)

theorem readV4_showV4 {a b c d : Nat} (ha : a < 256) (hb : b < 256) (hc : c < 256) (hd : d < 256) {rest : List Char}
    (hrest : NoDigit 10 rest) : readV4 (showV4 [a, b, c, d] ++ rest) = some ([a, b, c, d], rest) := by
  have h1 := fun s => readOctet_toDigits ha (noDigit_dot s)
  have h2 := fun s => readOctet_toDigits hb (noDigit_dot s)
  have h3 := fun s => readOctet_toDigits hc (noDigit_dot s)
  have h4 := readOctet_toDigits hd hrest
  simp only [readV4, showV4, readSeparator, List.append_assoc, List.cons_append, if_true, h1, Option.bind_eq_bind,
    Option.bind_some]
  simp [h2, h3, h4]

/-- An octet is followed by a point. -/
theorem readV4_none {s : List Char} (h : ∀ a rest, readOctet s = some (a, rest) → rest.head? ≠ some '.') :
    readV4 s = none := by
  have hfirst : readSeparator '.' 0 readOctet s = readOctet s := if_pos rfl
  rw [readV4, hfirst]
  cases hread : readOctet s with
  | none => rfl
  | some x =>
    obtain ⟨a, rest⟩ := x
    have hdot := h a rest hread
    cases rest with
    | nil => rfl
    | cons c rest =>
      have hc : c ≠ '.' := fun he => hdot (by rw [he]; rfl)
      simp [readSeparator, hc]

/-- A number is read from the characters before `rest`, where no digit comes next. -/
theorem readDigits_rest {radix bound maxDigits : Nat} {rest : List Char} (hrest : NoDigit radix rest) (ds : List Char) :
    ∀ {value count : Nat} {out : Nat × Nat × List Char},
    readDigits radix bound maxDigits value count (ds ++ rest) = some out → ∃ left, left <:+ ds ∧ out.2.2 = left ++ rest := by
  induction ds with
  | nil =>
    intro value count out h
    rw [List.nil_append, readDigits_noDigit hrest] at h
    cases h
    exact ⟨[], List.suffix_refl _, rfl⟩
  | cons c ds ih =>
    intro value count out h
    rw [List.cons_append, readDigits] at h
    cases hd : toDigit radix c with
    | none =>
      rw [hd] at h
      cases h
      exact ⟨c :: ds, List.suffix_refl _, rfl⟩
    | some d =>
      rw [hd] at h
      simp only at h
      split at h
      · cases h
      · obtain ⟨left, hleft, hout⟩ := ih h
        exact ⟨left, hleft.trans (List.suffix_cons c ds), hout⟩

theorem readNumber_rest {radix bound maxDigits : Nat} {zero : Bool} {rest : List Char} (hrest : NoDigit radix rest)
    {ds : List Char} {out : Nat × List Char} (h : readNumber radix bound maxDigits zero (ds ++ rest) = some out) :
    ∃ left, left <:+ ds ∧ out.2 = left ++ rest := by
  rw [readNumber] at h
  cases hread : readDigits radix bound maxDigits 0 0 (ds ++ rest) with
  | none => simp [hread] at h
  | some x =>
    obtain ⟨left, hleft, hout⟩ := readDigits_rest hrest ds hread
    simp only [hread, Option.bind_eq_bind, Option.bind_some] at h
    split at h
    · cases h
    · split at h
      · cases h
      · cases h
        exact ⟨left, hleft, hout⟩

/-- What follows a group: no hexadecimal digit and no point. -/
structure GroupEnd (rest : List Char) : Prop where
  noDigit : NoDigit 16 rest
  noDot : rest.head? ≠ some '.'

theorem groupEnd_nil : GroupEnd [] := ⟨noDigit_nil _, by simp⟩

theorem groupEnd_colon (s : List Char) : GroupEnd (':' :: s) := ⟨noDigit_cons s (by decide), by simp⟩

/-- A decimal digit is a hexadecimal one. -/
theorem NoDigit.decimal {s : List Char} (h : NoDigit 16 s) : NoDigit 10 s := by
  intro c hc
  have hnone := h c hc
  simp only [toDigit, Option.filter_eq_none_iff] at hnone ⊢
  intro d hd
  have := hnone d hd
  simp at this ⊢
  omega

theorem readGroup_toDigits {g : Nat} {rest : List Char} (hg : g < 65536) (hrest : GroupEnd rest) :
    readGroup (Nat.toDigits 16 g ++ rest) = some (g, rest) := by
  have hlen : (Nat.toDigits 16 g).length ≤ 4 := (Nat.length_toDigits_le_iff (by decide) (by decide)).mpr hg
  exact readNumber_toDigits (by decide) (by decide) hg hlen hrest.noDigit fun h => (by cases h)

/-- A group is not taken for an IPv4 address. -/
theorem readV4_group {g : Nat} {rest : List Char} (hrest : GroupEnd rest) : readV4 (Nat.toDigits 16 g ++ rest) = none := by
  refine readV4_none fun a out hread => ?_
  obtain ⟨left, hleft, rfl⟩ := readNumber_rest hrest.noDigit.decimal hread
  cases left with
  | nil => exact hrest.noDot
  | cons c left =>
    have hc := (toDigits_spec (by decide) (by decide) g).1 c (hleft.subset List.mem_cons_self)
    rintro ⟨⟩
    exact absurd hc (by decide)

theorem readV4_noDigit {s : List Char} (h : NoDigit 10 s) : readV4 s = none := by
  refine readV4_none fun a out hread => ?_
  rw [readOctet, readNumber_noDigit h] at hread
  cases hread

/-- The groups of an address from an index on: the separator comes first except at the beginning. -/
def showGroupsFrom (index : Nat) (gs : List Nat) : List Char :=
  match index, gs with
  | 0, gs => showGroups gs
  | _ + 1, gs => gs.flatMap fun g => ':' :: Nat.toDigits 16 g

theorem showGroups_cons (g : Nat) : ∀ gs : List Nat, showGroups (g :: gs) = Nat.toDigits 16 g ++ showGroupsFrom 1 gs
  | [] => by simp [showGroups, showGroupsFrom]
  | g' :: gs => by
    rw [showGroups, showGroups_cons g' gs]
    · simp [showGroupsFrom]
    · simp

/-- Nothing more is read: the text ends, or two colons follow. -/
def GroupsEnd (rest : List Char) : Prop := rest = [] ∨ ∃ s, rest = ':' :: ':' :: s

theorem GroupsEnd.groupEnd {rest : List Char} (h : GroupsEnd rest) : GroupEnd rest := by
  rcases h with rfl | ⟨s, rfl⟩
  · exact groupEnd_nil
  · exact groupEnd_colon _

theorem GroupsEnd.readGroups {rest : List Char} (h : GroupsEnd rest) : ∀ left index : Nat,
    readGroups left index rest = ([], false, rest)
  | 0, _ => rfl
  | left + 1, index => by
    have hv4 : readSeparator ':' index readV4 rest = none := by
      rcases h with rfl | ⟨s, rfl⟩
      · cases index with
        | zero => exact readV4_noDigit (noDigit_nil _)
        | succ i => rfl
      · cases index with
        | zero => exact readV4_noDigit (noDigit_cons _ (by decide))
        | succ i => exact readV4_noDigit (noDigit_cons _ (by decide))
    have hgroup : readSeparator ':' index readGroup rest = none := by
      rcases h with rfl | ⟨s, rfl⟩
      · cases index with
        | zero => exact readNumber_noDigit (noDigit_nil _)
        | succ i => rfl
      · cases index with
        | zero => exact readNumber_noDigit (noDigit_cons _ (by decide))
        | succ i => exact readNumber_noDigit (noDigit_cons _ (by decide))
    rw [Lib.readGroups]
    simp [hv4, hgroup]

/-- Printed groups are read back, if they are not too many. -/
theorem readGroups_show {rest : List Char} (hrest : GroupsEnd rest) : ∀ {gs : List Nat} (left index : Nat),
    (∀ g ∈ gs, g < 65536) → gs.length ≤ left →
    readGroups left index (showGroupsFrom index gs ++ rest) = (gs, false, rest)
  | [], left, index, _, _ => by
    have hnil : showGroupsFrom index [] = [] := by cases index <;> rfl
    rw [hnil, List.nil_append, hrest.readGroups]
  | g :: gs, 0, index, _, hlen => by simp at hlen
  | g :: gs, left + 1, index, hbound, hlen => by
    have hafter : GroupEnd (showGroupsFrom 1 gs ++ rest) := by
      cases gs with
      | nil => exact hrest.groupEnd
      | cons g' gs => exact groupEnd_colon _
    have hshow : ∀ {α : Type} (inner : List Char → Option (α × List Char)),
        readSeparator ':' index inner (showGroupsFrom index (g :: gs) ++ rest) =
          inner (Nat.toDigits 16 g ++ (showGroupsFrom 1 gs ++ rest)) := by
      intro α inner
      cases index with
      | zero =>
        have hsplit : showGroupsFrom 0 (g :: gs) = Nat.toDigits 16 g ++ showGroupsFrom 1 gs := showGroups_cons g gs
        rw [hsplit, List.append_assoc]
        rfl
      | succ i => simp [readSeparator, showGroupsFrom]
    have hnext : showGroupsFrom 1 gs = showGroupsFrom (index + 1) gs := rfl
    have hv4 := readV4_group (g := g) hafter
    have hgroup := readGroup_toDigits (hbound g List.mem_cons_self) hafter
    rw [readGroups, hshow, hshow, hv4, hgroup, ite_self]
    simp only
    rw [hnext, readGroups_show hrest _ _ (fun x hx => hbound x (List.mem_cons_of_mem _ hx)) (by simpa using hlen)]

/-! ## The run that is left out -/

/-- The span is a run of zeros. -/
def ZerosAt (segments : List Nat) (span : Span) : Prop :=
  ∃ before after, segments = before ++ (List.replicate span.len 0 ++ after) ∧ before.length = span.start

/-- The loop keeps a run of zeros, and the zeros just before the place it has come to. -/
theorem longestZeros_spec {segments : List Nat} : ∀ {rest seen : List Nat} {longest current : Span},
    segments = seen ++ rest → ZerosAt segments longest →
    (current.len = 0 ∨ ∃ before, seen = before ++ List.replicate current.len 0 ∧ before.length = current.start) →
    ZerosAt segments (longestZeros rest seen.length longest current)
  | [], _, _, _, _, hlongest, _ => hlongest
  | segment :: rest, seen, longest, current, hsplit, hlongest, hcurrent => by
    have hnext : segments = (seen ++ [segment]) ++ rest := by rw [hsplit, List.append_assoc, List.singleton_append]
    have hlength : (seen ++ [segment]).length = seen.length + 1 := by simp
    rw [longestZeros]
    split
    · rename_i hzero
      have hgrown : ∃ before, seen ++ [segment] = before ++ List.replicate (current.len + 1) 0 ∧
          before.length = if current.len = 0 then seen.length else current.start := by
        split
        · rename_i hnone
          exact ⟨seen, by rw [hnone, hzero]; rfl, rfl⟩
        · rename_i hsome
          obtain ⟨before, hseen, hstart⟩ := hcurrent.resolve_left hsome
          refine ⟨before, ?_, hstart⟩
          rw [hseen, hzero, List.replicate_succ', List.append_assoc]
      have hspan : ZerosAt segments ⟨if current.len = 0 then seen.length else current.start, current.len + 1⟩ := by
        obtain ⟨before, hbefore, hstart⟩ := hgrown
        exact ⟨before, rest, by rw [hnext, hbefore, List.append_assoc], hstart⟩
      rw [← hlength]
      refine longestZeros_spec hnext ?_ (.inr hgrown)
      by_cases hlonger : longest.len < current.len + 1
      · rw [if_pos hlonger]
        exact hspan
      · rw [if_neg hlonger]
        exact hlongest
    · rw [← hlength]
      exact longestZeros_spec hnext hlongest (.inl rfl)

theorem longestZeros_zeros (segments : List Nat) : ZerosAt segments (longestZeros segments 0 ⟨0, 0⟩ ⟨0, 0⟩) :=
  @longestZeros_spec segments segments [] ⟨0, 0⟩ ⟨0, 0⟩ rfl ⟨[], segments, rfl, rfl⟩ (.inl rfl)

/-! ## IPv6 addresses -/

/-- The parts of an address around a run of zeros. -/
theorem ZerosAt.parts {segments : List Nat} {span : Span} (h : ZerosAt segments span) :
    segments = segments.take span.start ++ (List.replicate span.len 0 ++ segments.drop (span.start + span.len)) ∧
      (segments.take span.start).length + span.len + (segments.drop (span.start + span.len)).length = segments.length := by
  obtain ⟨before, after, hsplit, hstart⟩ := h
  have htake : segments.take span.start = before := by rw [hsplit, ← hstart, List.take_left]
  have hdrop : segments.drop (span.start + span.len) = after := by
    rw [hsplit, ← hstart, ← List.drop_drop, List.drop_left]
    exact List.drop_left' (by simp)
  rw [htake, hdrop]
  refine ⟨hsplit, ?_⟩
  rw [hsplit]
  simp only [List.length_append, List.length_replicate]
  omega

/-- An address with two colons after its first groups. -/
theorem readV6_colons {s rest : List Char} {head tail : List Nat} {v4 : Bool} (hlt : head.length < 8)
    (hhead : readGroups 8 0 s = (head, false, ':' :: ':' :: rest))
    (htail : readGroups (8 - (head.length + 1)) 0 rest = (tail, v4, [])) :
    readV6 s = some (head ++ (List.replicate (8 - head.length - tail.length) 0 ++ tail), []) := by
  simp only [readV6, hhead]
  rw [if_neg (by omega)]
  simp only [htail, List.append_assoc]
  rfl

theorem readV6_groups {head tail : List Nat} {zeros : Nat} (hhead : ∀ g ∈ head, g < 65536) (htail : ∀ g ∈ tail, g < 65536)
    (hzeros : 1 < zeros) (hlen : head.length + zeros + tail.length = 8) :
    readV6 (showGroups head ++ "::".toList ++ showGroups tail) = some (head ++ (List.replicate zeros 0 ++ tail), []) := by
  have hfirst : readGroups 8 0 (showGroups head ++ "::".toList ++ showGroups tail) =
      (head, false, ':' :: ':' :: showGroups tail) := by
    rw [List.append_assoc]
    exact readGroups_show (.inr ⟨_, rfl⟩) 8 0 hhead (by omega)
  have hsecond : readGroups (8 - (head.length + 1)) 0 (showGroups tail) = (tail, false, []) := by
    have hread := readGroups_show (.inl rfl) (8 - (head.length + 1)) 0 htail (by omega)
    rwa [List.append_nil] at hread
  have hzero : 8 - head.length - tail.length = zeros := by omega
  rw [readV6_colons (by omega) hfirst hsecond, hzero]

theorem readV6_mapped {g h : Nat} (hg : g < 65536) (hh : h < 65536) :
    readV6 ("::ffff:".toList ++ showV4 [g / 256, g % 256, h / 256, h % 256]) =
      some ([0, 0, 0, 0, 0, 0xffff, g, h], []) := by
  have hg' : g / 256 * 256 + g % 256 = g := Nat.div_add_mod' g 256
  have hh' : h / 256 * 256 + h % 256 = h := Nat.div_add_mod' h 256
  have hv4 := readV4_showV4 (a := g / 256) (b := g % 256) (c := h / 256) (d := h % 256) (by omega) (by omega) (by omega)
    (by omega) (noDigit_nil 10)
  rw [List.append_nil] at hv4
  generalize showV4 [g / 256, g % 256, h / 256, h % 256] = text at hv4
  have hdigits : "ffff".toList = Nat.toDigits 16 0xffff := by decide
  have hgroup : readGroup ("ffff".toList ++ ':' :: text) = some (0xffff, ':' :: text) := by
    rw [hdigits, readGroup_toDigits (by omega) (groupEnd_colon text)]
  have hnone : readV4 ("ffff".toList ++ ':' :: text) = none := by
    rw [hdigits, readV4_group (groupEnd_colon text)]
  have hlast : readGroups (5 + 1) 1 (':' :: text) = ([g, h], true, []) := by
    rw [readGroups]
    simp [readSeparator, hv4, segmentsOfV4, hg', hh']
  have htail : readGroups (6 + 1) 0 ("ffff".toList ++ ':' :: text) = ([0xffff, g, h], true, []) := by
    rw [readGroups]
    simp only [readSeparator, if_true, hnone, hgroup, ite_self]
    rw [hlast]
  have hhead : readGroups 8 0 ("::ffff:".toList ++ text) = ([], false, ':' :: ':' :: ("ffff".toList ++ ':' :: text)) :=
    GroupsEnd.readGroups (.inr ⟨_, rfl⟩) 8 0
  exact readV6_colons (by decide) hhead htail

theorem readV6_showV6 {segments : List Nat} (hlen : segments.length = 8) (hbound : ∀ g ∈ segments, g < 65536) :
    readV6 (showV6 segments) = some (segments, []) := by
  unfold showV6
  split
  · rename_i g h
    exact readV6_mapped (hbound g (by simp)) (hbound h (by simp))
  · obtain ⟨hsplit, hparts⟩ := (longestZeros_zeros segments).parts
    generalize longestZeros segments 0 ⟨0, 0⟩ ⟨0, 0⟩ = zeroes at hsplit hparts ⊢
    simp only
    split
    · rename_i hzeros
      have htake : ∀ g ∈ segments.take zeroes.start, g < 65536 := fun g hg => hbound g (List.mem_of_mem_take hg)
      have hdrop : ∀ g ∈ segments.drop (zeroes.start + zeroes.len), g < 65536 :=
        fun g hg => hbound g (List.mem_of_mem_drop hg)
      rw [readV6_groups htake hdrop hzeros (by omega), ← hsplit]
    · have hread := readGroups_show (.inl rfl) 8 0 hbound (by omega)
      rw [List.append_nil] at hread
      have hall : readGroups 8 0 (showGroups segments) = (segments, false, []) := hread
      rw [readV6, hall]
      simp [hlen]

/-- An IPv6 address is not taken for an IPv4 one. -/
theorem readV4_showV6 (segments : List Nat) : readV4 (showV6 segments) = none := by
  have hgroups : ∀ (gs : List Nat) (rest : List Char), GroupsEnd rest → readV4 (showGroups gs ++ rest) = none := by
    intro gs rest hrest
    cases gs with
    | nil =>
      rcases hrest with rfl | ⟨s, rfl⟩
      · exact readV4_noDigit (noDigit_nil _)
      · exact readV4_noDigit (noDigit_cons _ (by decide))
    | cons g gs =>
      rw [showGroups_cons, List.append_assoc]
      refine readV4_group ?_
      cases gs with
      | nil => exact hrest.groupEnd
      | cons g' gs => exact groupEnd_colon _
  unfold showV6
  split
  · exact readV4_noDigit (noDigit_cons _ (by decide))
  · simp only
    split
    · rw [List.append_assoc]
      exact hgroups _ _ (.inr ⟨_, rfl⟩)
    · have h := hgroups segments [] (.inl rfl)
      rwa [List.append_nil] at h

/-! ## What an address is made of -/

def IsAddressChar (c : Char) : Prop := (toDigit 16 c).isSome = true ∨ c = '.' ∨ c = ':'

instance (c : Char) : Decidable (IsAddressChar c) := inferInstanceAs (Decidable (_ ∨ _ ∨ _))

theorem isAddressChar_of_toDigit {radix : Nat} (hr : radix ≤ 16) {c : Char} {d : Nat} (h : toDigit radix c = some d) :
    IsAddressChar c := by
  simp only [toDigit, Option.filter_eq_some_iff, decide_eq_true_eq] at h
  refine .inl ?_
  rw [toDigit, h.1, Option.filter_some, if_pos (by simpa using Nat.lt_of_lt_of_le h.2 hr)]
  rfl

/-- The rest is what is left after characters of an address. -/
def Reads (s rest : List Char) : Prop := ∃ used, s = used ++ rest ∧ ∀ c ∈ used, IsAddressChar c

theorem Reads.refl (s : List Char) : Reads s s := ⟨[], rfl, by simp⟩

theorem Reads.trans {s t u : List Char} (h : Reads s t) (h' : Reads t u) : Reads s u := by
  obtain ⟨a, rfl, ha⟩ := h
  obtain ⟨b, rfl, hb⟩ := h'
  refine ⟨a ++ b, (List.append_assoc _ _ _).symm, fun c hc => ?_⟩
  rcases List.mem_append.mp hc with hc | hc
  · exact ha c hc
  · exact hb c hc

theorem Reads.cons {c : Char} {s rest : List Char} (hc : IsAddressChar c) (h : Reads s rest) : Reads (c :: s) rest :=
  Reads.trans ⟨[c], rfl, by simpa using hc⟩ h

/-- A whole text that was read. -/
theorem Reads.all {s : List Char} (h : Reads s []) : ∀ c ∈ s, IsAddressChar c := by
  obtain ⟨used, rfl, hused⟩ := h
  simpa using hused

theorem readDigits_reads {radix bound maxDigits : Nat} (hr : radix ≤ 16) : ∀ {s : List Char} {value count : Nat}
    {out : Nat × Nat × List Char}, readDigits radix bound maxDigits value count s = some out → Reads s out.2.2
  | [], _, _, _, h => by
    cases h
    exact Reads.refl []
  | c :: s, value, count, out, h => by
    rw [readDigits] at h
    split at h
    · cases h
      exact Reads.refl (c :: s)
    · rename_i d hd
      split at h
      · cases h
      · exact (readDigits_reads hr h).cons (isAddressChar_of_toDigit hr hd)

theorem readNumber_reads {radix bound maxDigits : Nat} (hr : radix ≤ 16) {zero : Bool} {s : List Char} {out : Nat × List Char}
    (h : readNumber radix bound maxDigits zero s = some out) : Reads s out.2 := by
  rw [readNumber] at h
  cases hread : readDigits radix bound maxDigits 0 0 s with
  | none => simp [hread] at h
  | some x =>
    have hx := readDigits_reads hr hread
    simp only [hread, Option.bind_eq_bind, Option.bind_some] at h
    split at h
    · cases h
    · split at h
      · cases h
      · cases h
        exact hx

theorem readSeparator_reads {α : Type} {sep : Char} {index : Nat} {inner : List Char → Option (α × List Char)}
    (hsep : IsAddressChar sep) (hinner : ∀ {s out}, inner s = some out → Reads s out.2) {s : List Char}
    {out : α × List Char} (h : readSeparator sep index inner s = some out) : Reads s out.2 := by
  unfold readSeparator at h
  split at h
  · exact hinner h
  · split at h
    · split at h
      · rename_i hc
        exact (hinner h).cons (hc ▸ hsep)
      · cases h
    · cases h

theorem readV4_reads {s : List Char} {out : List Nat × List Char} (h : readV4 s = some out) : Reads s out.2 := by
  have hoctet : ∀ {index : Nat} {s : List Char} {out : Nat × List Char},
      readSeparator '.' index readOctet s = some out → Reads s out.2 :=
    fun h => readSeparator_reads (by decide) (fun h => readNumber_reads (by decide) h) h
  simp only [readV4, Option.bind_eq_bind, Option.bind_eq_some_iff] at h
  obtain ⟨a, ha, b, hb, c, hc, d, hd, hout⟩ := h
  cases hout
  exact (hoctet ha).trans ((hoctet hb).trans ((hoctet hc).trans (hoctet hd)))

theorem readGroups_reads : ∀ (left index : Nat) (s : List Char), Reads s (readGroups left index s).2.2
  | 0, _, s => Reads.refl s
  | left + 1, index, s => by
    rw [readGroups]
    split
    · rename_i v4 rest h
      split at h
      · exact readSeparator_reads (by decide) readV4_reads h
      · cases h
    · split
      · rename_i group rest h
        have hgroup : Reads s rest :=
          readSeparator_reads (by decide) (fun h => readNumber_reads (by decide) h) h
        exact hgroup.trans (readGroups_reads left (index + 1) rest)
      · exact Reads.refl s

theorem readV6_reads {s : List Char} {out : List Nat × List Char} (h : readV6 s = some out) : Reads s out.2 := by
  have hhead := readGroups_reads 8 0 s
  rw [readV6] at h
  generalize readGroups 8 0 s = groups at h hhead
  obtain ⟨head, v4, rest⟩ := groups
  simp only at h
  split at h
  · cases h
    exact hhead
  · split at h
    · cases h
    · split at h
      · rename_i tail
        cases h
        have hcolon : IsAddressChar ':' := by decide
        have htail := readGroups_reads (8 - (head.length + 1)) 0 tail
        exact hhead.trans (htail.cons hcolon |>.cons hcolon)
      · cases h

end Firestone.Lib
