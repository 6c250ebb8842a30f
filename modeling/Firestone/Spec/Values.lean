import Firestone.Lib.Decimal
import Firestone.Lib.IpText
import Firestone.Lib.Text
import Firestone.Spec

/-!
# The text of spec values

Sizes, durations, MAC addresses, firmware and port forwards are strings in a spec document. Each has a printer and a
reader; reading gives the value back (`ByteSize.fromStr_display` and its like). A value that can be constructed satisfies
`Wf`: the constructors of the source check it.
-/

namespace Firestone

open Firestone.Lib

/-! ## Numbers -/

/-- Decimal digits without a sign, for a number below the bound. -/
def parseDigits (bound : Nat) (digits : List Char) : Option Nat :=
  if digits ≠ [] ∧ (digits.all Char.isDigit) = true then
    let value := Nat.ofDigitChars 10 digits 0
    if value < bound then some value else none
  else none

theorem parseDigits_toDigits {bound n : Nat} (h : n < bound) : parseDigits bound (Nat.toDigits 10 n) = some n := by
  have hall : ((Nat.toDigits 10 n).all Char.isDigit) = true :=
    List.all_eq_true.mpr fun c hc => Nat.isDigit_of_mem_toDigits (by decide) (by decide) hc
  rw [parseDigits, if_pos ⟨Nat.toDigits_ne_nil, hall⟩]
  simp only [Nat.ofDigitChars_ten_toDigits, if_pos h]

theorem toList_toString (n : Nat) : (toString n).toList = Nat.toDigits 10 n := by
  rw [Nat.toString_eq_ofList_toDigits, String.toList_ofList]

theorem isDigit_of_mem {n : Nat} {c : Char} (h : c ∈ Nat.toDigits 10 n) : c.isDigit = true :=
  Nat.isDigit_of_mem_toDigits (by decide) (by decide) h

/-- A character that is no digit is in no number. -/
theorem not_mem_toDigits {n : Nat} {c : Char} (h : c.isDigit = false) : c ∉ Nat.toDigits 10 n := by
  intro hc
  rw [isDigit_of_mem hc] at h
  cases h

theorem isWhitespace_of_isDigit {c : Char} (h : c.isDigit = true) : isWhitespace c = false := by
  have hrange : 48 ≤ c.toNat ∧ c.toNat ≤ 57 := by
    simp only [Char.isDigit, Bool.and_eq_true, decide_eq_true_eq, ge_iff_le] at h
    exact ⟨h.1, h.2⟩
  simp only [isWhitespace, Bool.or_eq_false_iff, Bool.and_eq_false_iff, decide_eq_false_iff_not, beq_eq_false_iff_ne]
  omega

theorem ofList_number (n : Nat) (unit : Char) {text : String} (h : text.toList = [unit]) :
    toString n ++ text = String.ofList (Nat.toDigits 10 n ++ [unit]) := by
  refine String.toList_inj.mp ?_
  rw [String.toList_append, toList_toString, String.toList_ofList, h]

/-- A printed number and a unit. -/
theorem trim_number_unit {n : Nat} (unit : Char) (h : isWhitespace unit = false) :
    trim (String.ofList (Nat.toDigits 10 n ++ [unit])) = String.ofList (Nat.toDigits 10 n ++ [unit]) := by
  obtain ⟨d, ds, hd⟩ := List.exists_cons_of_ne_nil (Nat.toDigits_ne_nil (n := n) (b := 10))
  have hfirst : isWhitespace d = false := isWhitespace_of_isDigit (isDigit_of_mem (n := n) (by rw [hd]; simp))
  have hhead : ∀ c, (d :: ds ++ [unit]).head? = some c → isWhitespace c = false := by
    rintro c ⟨⟩
    exact hfirst
  have hlast : ∀ c, (d :: ds ++ [unit]).getLast? = some c → isWhitespace c = false := by
    intro c hc
    rw [List.getLast?_concat] at hc
    cases hc
    exact h
  rw [trim, String.toList_ofList, hd, trimChars_eq hhead hlast]

/-! ## Sizes -/

def u64Bound : Nat := 2 ^ 64

/-- `ByteSize::from_mib` and `ByteSize::from_gib`: a number of units, if the bytes fit. -/
def ByteSize.fromUnits (unit : UInt64) (value : Nat) : Option ByteSize :=
  if value * unit.toNat < u64Bound then some ⟨UInt64.ofNat (value * unit.toNat)⟩ else none

def ByteSize.display (size : ByteSize) : String :=
  if size.bytes % ByteSize.gib = 0 then toString (size.bytes / ByteSize.gib).toNat ++ "G"
  else toString (size.bytes / ByteSize.mib).toNat ++ "M"

def ByteSize.fromNumber (number : List Char) (unit : UInt64) : Option ByteSize :=
  (parseDigits u64Bound number).bind (ByteSize.fromUnits unit)

def ByteSize.fromStr (s : String) : Option ByteSize :=
  let value := (trim s).toList
  match value.getLast? with
  | some last =>
    if last = 'M' ∨ last = 'm' then ByteSize.fromNumber value.dropLast ByteSize.mib
    else if last = 'G' ∨ last = 'g' then ByteSize.fromNumber value.dropLast ByteSize.gib
    else if last.isDigit then ByteSize.fromNumber value ByteSize.mib
    else none
  | none => none

/-- Every size that can be constructed is a whole number of MiB. -/
def ByteSize.Wf (size : ByteSize) : Prop := size.bytes % ByteSize.mib = 0

theorem toNat_lt_u64Bound (n : UInt64) : n.toNat < u64Bound := n.toNat_lt

theorem ByteSize.fromUnits_div {size : ByteSize} {unit : UInt64} (h : size.bytes % unit = 0) :
    ByteSize.fromUnits unit (size.bytes / unit).toNat = some size := by
  have hmul : (size.bytes / unit).toNat * unit.toNat = size.bytes.toNat := by
    have hmod : size.bytes.toNat % unit.toNat = 0 := by
      rw [← UInt64.toNat_mod, h]
      rfl
    rw [UInt64.toNat_div]
    exact Nat.div_mul_cancel (Nat.dvd_of_mod_eq_zero hmod)
  rw [fromUnits, hmul, if_pos (toNat_lt_u64Bound size.bytes)]
  simp

/-- A number and a unit letter. -/
theorem ByteSize.fromStr_number {n : Nat} {letter : Char} {unit : UInt64} (hn : n < u64Bound)
    (h : letter = 'M' ∧ unit = ByteSize.mib ∨ letter = 'G' ∧ unit = ByteSize.gib) :
    ByteSize.fromStr (String.ofList (Nat.toDigits 10 n ++ [letter])) = ByteSize.fromUnits unit n := by
  have hspace : isWhitespace letter = false := by rcases h with ⟨rfl, -⟩ | ⟨rfl, -⟩ <;> decide
  rw [fromStr, trim_number_unit letter hspace, String.toList_ofList, List.getLast?_concat, List.dropLast_concat]
  have hnumber : ByteSize.fromNumber (Nat.toDigits 10 n) unit = ByteSize.fromUnits unit n := by
    rw [fromNumber, parseDigits_toDigits hn, Option.bind_some]
  rcases h with ⟨rfl, rfl⟩ | ⟨rfl, rfl⟩
  · exact (if_pos (.inl rfl)).trans hnumber
  · exact (if_neg (by decide)).trans ((if_pos (.inl rfl)).trans hnumber)

theorem ByteSize.fromStr_display {size : ByteSize} (h : size.Wf) : ByteSize.fromStr size.display = some size := by
  unfold display
  split
  · rename_i hgib
    rw [ofList_number _ 'G' rfl, ByteSize.fromStr_number (toNat_lt_u64Bound _) (.inr ⟨rfl, rfl⟩), ByteSize.fromUnits_div hgib]
  · rw [ofList_number _ 'M' rfl, ByteSize.fromStr_number (toNat_lt_u64Bound _) (.inl ⟨rfl, rfl⟩), ByteSize.fromUnits_div h]

/-! ## Durations -/

/-- A positive number of seconds. -/
structure HumanDuration where
  seconds : UInt64
  seconds_ne_zero : seconds ≠ 0
  deriving DecidableEq

def HumanDuration.fromSecs (seconds : UInt64) : Option HumanDuration :=
  if h : seconds ≠ 0 then some ⟨seconds, h⟩ else none

def HumanDuration.display (duration : HumanDuration) : String := toString duration.seconds.toNat ++ "s"

def HumanDuration.fromStr (s : String) : Option HumanDuration :=
  let value := (trim s).toList
  if value.getLast? = some 's' then
    (parseDigits u64Bound value.dropLast).bind fun amount => HumanDuration.fromSecs (UInt64.ofNat amount)
  else none

theorem HumanDuration.fromStr_display (duration : HumanDuration) :
    HumanDuration.fromStr duration.display = some duration := by
  have htrim := trim_number_unit (n := duration.seconds.toNat) 's' (by decide)
  rw [display, ofList_number _ 's' rfl, fromStr, htrim, String.toList_ofList]
  simp only [List.getLast?_concat, List.dropLast_concat, parseDigits_toDigits (toNat_lt_u64Bound _), Option.bind_some,
    if_true, fromSecs, UInt64.ofNat_toNat, dif_pos duration.seconds_ne_zero]

/-! ## MAC addresses -/

/-- `u8::from_str_radix` and its like: digits with an optional plus sign. -/
def fromStrRadix (radix bound : Nat) (s : List Char) : Option Nat :=
  let digits := match s with
    | '+' :: d :: ds => d :: ds
    | s => s
  if digits ≠ [] ∧ (digits.all fun c => (toDigit radix c).isSome) = true then
    if digitsFrom radix 0 digits < bound then some (digitsFrom radix 0 digits) else none
  else none

/-- A printed number is read back. -/
theorem fromStrRadix_toDigits {n bound : Nat} (h : n < bound) : fromStrRadix 10 bound (Nat.toDigits 10 n) = some n := by
  obtain ⟨hall, hvalue⟩ := toDigits_spec (by decide : 1 < 10) (by decide) n
  have hdigits : (match Nat.toDigits 10 n with
      | '+' :: d :: ds => d :: ds
      | s => s) = Nat.toDigits 10 n := by
    split
    · rename_i d ds heq
      have hplus : '+' ∈ Nat.toDigits 10 n := heq ▸ List.mem_cons_self
      exact absurd hplus (not_mem_toDigits (by decide))
    · rfl
  unfold fromStrRadix
  rw [hdigits]
  simp only [hvalue]
  rw [if_pos ⟨Nat.toDigits_ne_nil, List.all_eq_true.mpr hall⟩, if_pos h]

def MacAddr.display (mac : MacAddr) : String := String.ofList ([':'].intercalate (mac.octets.toList.map hexByte))

def MacAddr.octet (part : String) : Option UInt8 :=
  if part.utf8ByteSize ≠ 2 then none else (fromStrRadix 16 256 part.toList).map UInt8.ofNat

def MacAddr.fromStr (value : String) : Option MacAddr :=
  match splitText ':' value with
  | [a, b, c, d, e, f] => do
    let a ← octet a
    let b ← octet b
    let c ← octet c
    let d ← octet d
    let e ← octet e
    let f ← octet f
    some ⟨#v[a, b, c, d, e, f]⟩
  | _ => none

/-- The two digits of a byte are read back. -/
theorem MacAddr.octet_hexByte (b : UInt8) : MacAddr.octet (String.ofList (hexByte b)) = some b := by
  have hb := b.toNat_lt
  have hhi : b.toNat / 16 < 16 := by omega
  have hlo : b.toNat % 16 < 16 := Nat.mod_lt _ (by decide)
  have hsize : ∀ m < 16, (Nat.digitChar m).utf8Size = 1 ∧ Nat.digitChar m ≠ '+' := by decide
  have hd1 := toDigit_digitChar (Nat.le_refl 16) hhi
  have hd2 := toDigit_digitChar (Nat.le_refl 16) hlo
  have hlen : (String.ofList (hexByte b)).utf8ByteSize = 2 := by
    simp [hexByte, (hsize _ hhi).1, (hsize _ hlo).1]
  have hvalue : digitsFrom 16 0 (hexByte b) = b.toNat := by
    simp only [digitsFrom, hexByte, List.foldl_cons, List.foldl_nil, hd1, hd2, Option.getD_some]
    omega
  have hread : fromStrRadix 16 256 (hexByte b) = some b.toNat := by
    unfold fromStrRadix
    have hdigits : (match hexByte b with
        | '+' :: d :: ds => d :: ds
        | s => s) = hexByte b := by
      split
      · rename_i d ds heq
        exact absurd (List.cons.inj heq).1 (hsize _ hhi).2
      · rfl
    rw [hdigits]
    simp only [hvalue]
    rw [if_pos ⟨by simp [hexByte], by simp [hexByte, hd1, hd2]⟩, if_pos hb]
  rw [octet, if_neg (by simp [hlen]), String.toList_ofList, hread, Option.map_some, UInt8.ofNat_toNat]

theorem colon_not_mem_hexByte (b : UInt8) : ':' ∉ hexByte b := by
  have hb := b.toNat_lt
  have hcolon : ∀ m < 16, ':' ≠ Nat.digitChar m := by decide
  have hhi := hcolon (b.toNat / 16) (by omega)
  have hlo := hcolon (b.toNat % 16) (Nat.mod_lt _ (by decide))
  simp [hexByte, hhi, hlo]

theorem MacAddr.fromStr_display (mac : MacAddr) : MacAddr.fromStr mac.display = some mac := by
  obtain ⟨octets⟩ := mac
  obtain ⟨a, b, c, d, e, f, hlist⟩ : ∃ a b c d e f, octets.toList = [a, b, c, d, e, f] := by
    have hlen : octets.toList.length = 6 := octets.length_toList
    match octets.toList, hlen with
    | [a, b, c, d, e, f], _ => exact ⟨a, b, c, d, e, f, rfl⟩
  have hoctets : octets = #v[a, b, c, d, e, f] := Vector.toList_inj.mp hlist
  have hsplit : splitText ':' (MacAddr.display ⟨octets⟩) =
      [a, b, c, d, e, f].map fun octet => String.ofList (hexByte octet) := by
    have hcolon : ∀ l ∈ [a, b, c, d, e, f].map hexByte, ':' ∉ l := by
      intro l hl
      obtain ⟨octet, -, rfl⟩ := List.mem_map.mp hl
      exact colon_not_mem_hexByte octet
    rw [splitText, display, hlist, String.toList_ofList, List.splitOn_intercalate ':' hcolon (by simp), List.map_map]
    rfl
  simp only [fromStr, hsplit, List.map_cons, List.map_nil, MacAddr.octet_hexByte]
  rw [hoctets]
  rfl

/-! ## Firmware -/

def Firmware.display : Firmware → String
  | .auto => "auto"
  | .rhf => "rhf"
  | .edk2 => "edk2"
  | .path text => text

def Firmware.isReserved (text : String) : Bool := text = "auto" || text = "rhf" || text = "edk2"

def Firmware.fromStr (value : String) : Option Firmware :=
  if value = "auto" then some .auto
  else if value = "rhf" then some .rhf
  else if value = "edk2" then some .edk2
  else if value = "" ∨ Firmware.isReserved value = true then none
  else some (.path value)

/-- A firmware path is not empty and no reserved word. -/
def Firmware.Wf : Firmware → Prop
  | .path text => text ≠ "" ∧ Firmware.isReserved text = false
  | _ => True

theorem Firmware.fromStr_display {firmware : Firmware} (h : firmware.Wf) :
    Firmware.fromStr firmware.display = some firmware := by
  cases firmware with
  | path text =>
    obtain ⟨hne, hreserved⟩ := h
    have hwords : text ≠ "auto" ∧ text ≠ "rhf" ∧ text ≠ "edk2" := by
      simp only [isReserved, Bool.or_eq_false_iff, decide_eq_false_iff_not] at hreserved
      exact ⟨hreserved.1.1, hreserved.1.2, hreserved.2⟩
    simp [fromStr, display, hwords, hne, hreserved]
  | auto => rfl
  | rhf => rfl
  | edk2 => rfl

/-! ## Addresses -/

def IpAddr.display : IpAddr → String
  | .v4 octets => String.ofList (showV4 (octets.toList.map UInt8.toNat))
  | .v6 segments => String.ofList (showV6 (segments.toList.map UInt16.toNat))

def IpAddr.ofOctets : List Nat → Option IpAddr
  | [a, b, c, d] => some (.v4 #v[UInt8.ofNat a, UInt8.ofNat b, UInt8.ofNat c, UInt8.ofNat d])
  | _ => none

def IpAddr.ofSegments : List Nat → Option IpAddr
  | [a, b, c, d, e, f, g, h] => some (.v6 #v[UInt16.ofNat a, UInt16.ofNat b, UInt16.ofNat c, UInt16.ofNat d, UInt16.ofNat e,
      UInt16.ofNat f, UInt16.ofNat g, UInt16.ofNat h])
  | _ => none

/-- An address that takes up the whole text. -/
def IpAddr.fromStr (value : String) : Option IpAddr :=
  match readV4 value.toList with
  | some (octets, rest) => if rest = [] then IpAddr.ofOctets octets else none
  | none =>
    match readV6 value.toList with
    | some (segments, rest) => if rest = [] then IpAddr.ofSegments segments else none
    | none => none

theorem IpAddr.fromStr_display (address : IpAddr) : IpAddr.fromStr address.display = some address := by
  cases address with
  | v4 octets =>
    obtain ⟨a, b, c, d, hlist⟩ : ∃ a b c d, octets.toList = [a, b, c, d] := by
      have hlen : octets.toList.length = 4 := octets.length_toList
      match octets.toList, hlen with
      | [a, b, c, d], _ => exact ⟨a, b, c, d, rfl⟩
    have hoctets : octets = #v[a, b, c, d] := Vector.toList_inj.mp hlist
    have hread := readV4_showV4 a.toNat_lt b.toNat_lt c.toNat_lt d.toNat_lt (noDigit_nil 10)
    rw [List.append_nil] at hread
    rw [fromStr, display, String.toList_ofList, hlist]
    simp only [List.map_cons, List.map_nil, hread, if_true, ofOctets, UInt8.ofNat_toNat]
    rw [hoctets]
  | v6 segments =>
    have hlen : (segments.toList.map UInt16.toNat).length = 8 := by simp
    have hbound : ∀ g ∈ segments.toList.map UInt16.toNat, g < 65536 := by
      intro g hg
      obtain ⟨x, -, rfl⟩ := List.mem_map.mp hg
      exact x.toNat_lt
    obtain ⟨a, b, c, d, e, f, g, h, hlist⟩ : ∃ a b c d e f g h, segments.toList = [a, b, c, d, e, f, g, h] := by
      have hlen : segments.toList.length = 8 := segments.length_toList
      match segments.toList, hlen with
      | [a, b, c, d, e, f, g, h], _ => exact ⟨a, b, c, d, e, f, g, h, rfl⟩
    have hsegments : segments = #v[a, b, c, d, e, f, g, h] := Vector.toList_inj.mp hlist
    rw [fromStr, display, String.toList_ofList, readV4_showV6, readV6_showV6 hlen hbound, hlist]
    simp only [List.map_cons, List.map_nil, if_true, ofSegments, UInt16.ofNat_toNat]
    rw [hsegments]

/-! ## Port forwards -/

inductive ParsePortForwardError
  | invalidSyntax
  | invalidProtocol (value : String)
  | invalidBind (value : String)
  | invalidPort (component value : String)
  | invertedRange (component : String) (start stop : UInt16)
  | unequalRangeLengths (host guest : Nat)
  deriving DecidableEq, Repr

def ParsePortForwardError.display : ParsePortForwardError → String
  | .invalidSyntax => "expected a port forward in the form '[proto:][bind:]HOST:GUEST'"
  | .invalidProtocol value => "unsupported port-forward protocol '" ++ value ++ "'; expected 'tcp' or 'udp'"
  | .invalidBind value => "invalid bind address '" ++ value ++ "'; expected an IPv4 or IPv6 literal"
  | .invalidPort component value =>
    "invalid " ++ component ++ " port or range '" ++ value ++ "'; expected ports from 1 through 65535"
  | .invertedRange component start stop =>
    "invalid " ++ component ++ " range '" ++ toString start.toNat ++ "-" ++ toString stop.toNat ++
      "'; range start exceeds range end"
  | .unequalRangeLengths host guest =>
    "host and guest port ranges must have equal lengths; host has " ++ toString host ++ " ports and guest has " ++
      toString guest ++ " ports"

def PortRange.display (range : PortRange) : String :=
  if range.start = range.stop then toString range.start.toNat
  else toString range.start.toNat ++ "-" ++ toString range.stop.toNat

def parsePort (value component original : String) : Except ParsePortForwardError { p : UInt16 // p ≠ 0 } :=
  match parseDigits (2 ^ 32) value.toList with
  | none => .error (.invalidPort component original)
  | some port =>
    if h : port < 2 ^ 16 ∧ UInt16.ofNat port ≠ 0 then .ok ⟨UInt16.ofNat port, h.2⟩
    else .error (.invalidPort component original)

def parsePortRange (value component : String) : Except ParsePortForwardError PortRange := do
  let (startValue, endValue) := (splitOnce '-' value).getD (value, value)
  let start ← parsePort startValue component value
  let stop ← parsePort endValue component value
  if h : start.val ≤ stop.val then .ok ⟨start.val, stop.val, start.property, stop.property, h⟩
  else .error (.invertedRange component start.val stop.val)

def PortForward.display (forward : PortForward) : String :=
  (if forward.protocol = .udp then "udp:" else "") ++
    (match forward.bind with
      | some (.v4 address) => (IpAddr.v4 address).display ++ ":"
      | some (.v6 address) => "[" ++ (IpAddr.v6 address).display ++ "]:"
      | none => "") ++
    forward.host.display ++ ":" ++ forward.guest.display

def parseBind (value : String) : Except ParsePortForwardError IpAddr :=
  if value.toList.head? = some '[' ∧ value.toList.tail.getLast? = some ']' then
    match IpAddr.fromStr (String.ofList value.toList.tail.dropLast) with
    | some (.v6 address) => .ok (.v6 address)
    | _ => .error (.invalidBind value)
  else if '[' ∈ value.toList ∨ ']' ∈ value.toList then .error (.invalidBind value)
  else match IpAddr.fromStr value with
    | some address => .ok address
    | none => .error (.invalidBind value)

def classifyPrefixError (start : String) (bindError : ParsePortForwardError) : ParsePortForwardError :=
  let candidate := ((splitOnce ':' start).map Prod.fst).getD start
  if candidate ≠ "" ∧ (candidate.toList.all Char.isAlpha) = true then .invalidProtocol candidate else bindError

/-- The protocol and the bind address before the ports. -/
def parsePrefix : Option String → Except ParsePortForwardError (Protocol × Option IpAddr)
  | none => .ok (.tcp, none)
  | some start =>
    if start = "tcp" then .ok (.tcp, none)
    else if start = "udp" then .ok (.udp, none)
    else
      let (protocol, bindValue) :=
        match stripPrefix "tcp:" start with
        | some bind => (Protocol.tcp, bind)
        | none =>
          match stripPrefix "udp:" start with
          | some bind => (Protocol.udp, bind)
          | none => (Protocol.tcp, start)
      match parseBind bindValue with
      | .ok bind => .ok (protocol, some bind)
      | .error error =>
        if protocol = .tcp ∧ bindValue = start then .error (classifyPrefixError start error) else .error error

def PortForward.new (protocol : Protocol) (bind : Option IpAddr) (host guest : PortRange) :
    Except ParsePortForwardError PortForward :=
  if h : host.len = guest.len then .ok ⟨protocol, bind, host, guest, h⟩
  else .error (.unequalRangeLengths host.len guest.len)

def PortForward.fromStr (value : String) : Except ParsePortForwardError PortForward :=
  match rsplitOnceChar ':' value with
  | none => .error .invalidSyntax
  | some (beforeGuest, guestValue) => do
    let (start, hostValue) := match rsplitOnceChar ':' beforeGuest with
      | some (start, host) => (some start, host)
      | none => (none, beforeGuest)
    let host ← parsePortRange hostValue "host"
    let guest ← parsePortRange guestValue "guest"
    let (protocol, bind) ← parsePrefix start
    PortForward.new protocol bind host guest

/-! ### Reading a forward back -/

theorem parsePort_toString {port : UInt16} (h : port ≠ 0) (component original : String) :
    parsePort (toString port.toNat) component original = .ok ⟨port, h⟩ := by
  have hlt : port.toNat < 2 ^ 16 := port.toNat_lt
  have hparse : parseDigits (2 ^ 32) (Nat.toDigits 10 port.toNat) = some port.toNat :=
    parseDigits_toDigits (Nat.lt_trans hlt (by decide))
  rw [parsePort, toList_toString, hparse]
  simp only [UInt16.ofNat_toNat, dif_pos (And.intro hlt h)]

theorem not_mem_display {range : PortRange} {c : Char} (hdigit : c.isDigit = false) (hdash : c ≠ '-') :
    c ∉ range.display.toList := by
  unfold PortRange.display
  split
  · rw [toList_toString]
    exact not_mem_toDigits hdigit
  · simp [not_mem_toDigits hdigit, hdash]

theorem parsePortRange_display (range : PortRange) (component : String) :
    parsePortRange range.display component = .ok range := by
  have hdash : ∀ n : Nat, '-' ∉ (toString n).toList := by
    intro n
    rw [toList_toString]
    exact not_mem_toDigits (by decide)
  have hsplit : (splitOnce '-' range.display).getD (range.display, range.display) =
      (toString range.start.toNat, toString range.stop.toNat) := by
    unfold PortRange.display
    split
    · rename_i heq
      rw [splitOnce_none (hdash _), Option.getD_none, heq]
    · have htext : toString range.start.toNat ++ "-" ++ toString range.stop.toNat =
          String.ofList ((toString range.start.toNat).toList ++ '-' :: (toString range.stop.toNat).toList) := by
        refine String.toList_inj.mp ?_
        simp
      rw [htext, splitOnce_append (hdash _), Option.getD_some, String.ofList_toList, String.ofList_toList]
  rw [parsePortRange, hsplit]
  simp only [bind, Except.bind, parsePort_toString range.start_ne_zero, parsePort_toString range.stop_ne_zero,
    dif_pos range.start_le_stop]

/-- The text of a bind address, in brackets for IPv6. -/
def IpAddr.bindText : IpAddr → List Char
  | .v4 octets => showV4 (octets.toList.map UInt8.toNat)
  | .v6 segments => '[' :: (showV6 (segments.toList.map UInt16.toNat) ++ [']'])

theorem mem_showV4 {octets : List Nat} {c : Char} (h : c ∈ showV4 octets) : c.isDigit = true ∨ c = '.' := by
  unfold showV4 at h
  split at h
  · simp only [List.mem_append, List.mem_cons] at h
    rcases h with h | h | h | h | h | h | h
    · exact .inl (isDigit_of_mem h)
    · exact .inr h
    · exact .inl (isDigit_of_mem h)
    · exact .inr h
    · exact .inl (isDigit_of_mem h)
    · exact .inr h
    · exact .inl (isDigit_of_mem h)
  · cases h

/-- The text of a bind address does not begin like a protocol. -/
theorem IpAddr.head_bindText (address : IpAddr) {c : Char} (h : address.bindText.head? = some c) : c ≠ 't' ∧ c ≠ 'u' := by
  cases address with
  | v4 octets =>
    rcases mem_showV4 (List.mem_of_mem_head? h) with hc | rfl
    · constructor <;> (rintro rfl; revert hc; decide)
    · decide
  | v6 segments =>
    cases h
    decide

theorem parseBind_bindText (address : IpAddr) : parseBind (String.ofList address.bindText) = .ok address := by
  have hread := IpAddr.fromStr_display address
  cases address with
  | v4 octets =>
    have hplain : ∀ c, c.isDigit = false → c ≠ '.' → c ∉ showV4 (octets.toList.map UInt8.toNat) := by
      intro c hdigit hdot hc
      rcases mem_showV4 hc with h | h
      · rw [hdigit] at h
        cases h
      · exact hdot h
    have hopen := hplain '[' (by decide) (by decide)
    have hclose := hplain ']' (by decide) (by decide)
    have hhead : (showV4 (octets.toList.map UInt8.toNat)).head? ≠ some '[' := fun h => hopen (List.mem_of_mem_head? h)
    rw [parseBind, IpAddr.bindText, String.toList_ofList, if_neg (fun h => hhead h.1), if_neg (by simp [hopen, hclose])]
    rw [IpAddr.display] at hread
    rw [hread]
  | v6 segments =>
    rw [IpAddr.display] at hread
    simp [parseBind, IpAddr.bindText, hread]

/-- A text that begins with another character does not begin with a protocol. -/
theorem stripPrefix_eq_none {start s : String} {c : Char} (hstart : start.toList.head? = some c)
    (h : s.toList.head? ≠ some c) : stripPrefix start s = none := by
  refine if_neg ?_
  rintro ⟨rest, hrest⟩
  refine h ?_
  rw [← hrest, List.head?_append, hstart]
  rfl

/-- A text that starts like no protocol is an address. -/
theorem parsePrefix_absent {text : List Char} {address : IpAddr} (hhead : ∀ c, text.head? = some c → c ≠ 't' ∧ c ≠ 'u')
    (hparse : parseBind (String.ofList text) = .ok address) :
    parsePrefix (some (String.ofList text)) = .ok (.tcp, some address) := by
  rw [← String.toList_ofList (l := text)] at hhead
  have htcp : stripPrefix "tcp:" (String.ofList text) = none :=
    stripPrefix_eq_none (c := 't') rfl fun h => (hhead _ h).1 rfl
  have hudp : stripPrefix "udp:" (String.ofList text) = none :=
    stripPrefix_eq_none (c := 'u') rfl fun h => (hhead _ h).2 rfl
  have hne : ∀ protocol : String, (protocol.toList.head? = some 't' ∨ protocol.toList.head? = some 'u') →
      String.ofList text ≠ protocol := by
    rintro protocol hp rfl
    rcases hp with hp | hp
    · exact (hhead _ hp).1 rfl
    · exact (hhead _ hp).2 rfl
  rw [parsePrefix, if_neg (hne "tcp" (.inl rfl)), if_neg (hne "udp" (.inr rfl)), htcp, hudp]
  simp only [hparse]

theorem parsePrefix_bind (address : IpAddr) : parsePrefix (some (String.ofList address.bindText)) = .ok (.tcp, some address) :=
  parsePrefix_absent (fun _ hc => address.head_bindText hc) (parseBind_bindText address)

theorem parsePrefix_udp_bind (address : IpAddr) :
    parsePrefix (some (String.ofList ("udp:".toList ++ address.bindText))) = .ok (.udp, some address) := by
  have htcp : stripPrefix "tcp:" (String.ofList ("udp:".toList ++ address.bindText)) = none :=
    stripPrefix_eq_none (c := 't') rfl (by simp)
  have hudp : stripPrefix "udp:" (String.ofList ("udp:".toList ++ address.bindText)) = some (String.ofList address.bindText) := by
    simp [stripPrefix]
  have hne : ∀ protocol : String, protocol.toList.length = 3 →
      String.ofList ("udp:".toList ++ address.bindText) ≠ protocol := by
    rintro protocol hp rfl
    simp at hp
  rw [parsePrefix, if_neg (hne "tcp" rfl), if_neg (hne "udp" rfl), htcp, hudp]
  simp only [parseBind_bindText]

/-- What is written before the ports, without its last colon. -/
def PortForward.start (forward : PortForward) : Option (List Char) :=
  match forward.protocol, forward.bind with
  | .tcp, none => none
  | .udp, none => some "udp".toList
  | .tcp, some address => some address.bindText
  | .udp, some address => some ("udp:".toList ++ address.bindText)

theorem PortForward.parsePrefix_start (forward : PortForward) :
    parsePrefix (forward.start.map String.ofList) = .ok (forward.protocol, forward.bind) := by
  unfold start
  split
  · rename_i hprotocol hbind
    rw [hprotocol, hbind]
    rfl
  · rename_i hprotocol hbind
    rw [hprotocol, hbind]
    rfl
  · rename_i address hprotocol hbind
    rw [hprotocol, hbind, Option.map_some, parsePrefix_bind]
  · rename_i address hprotocol hbind
    rw [hprotocol, hbind, Option.map_some, parsePrefix_udp_bind]

/-- The text of a forward: what comes before the ports, the host ports and the guest ports. -/
theorem PortForward.display_eq (forward : PortForward) : forward.display =
    String.ofList ((match forward.start with
      | some start => start ++ ':' :: forward.host.display.toList
      | none => forward.host.display.toList) ++ ':' :: forward.guest.display.toList) := by
  refine String.toList_inj.mp ?_
  unfold display start
  cases forward.protocol with
  | tcp =>
    cases forward.bind with
    | none => simp
    | some address => cases address <;> simp [IpAddr.display, IpAddr.bindText]
  | udp =>
    cases forward.bind with
    | none => simp
    | some address => cases address <;> simp [IpAddr.display, IpAddr.bindText]

theorem PortForward.fromStr_display (forward : PortForward) : PortForward.fromStr forward.display = .ok forward := by
  have hguest : ':' ∉ forward.guest.display.toList := not_mem_display (by decide) (by decide)
  have hhost : ':' ∉ forward.host.display.toList := not_mem_display (by decide) (by decide)
  have hprefix := forward.parsePrefix_start
  have hnew : PortForward.new forward.protocol forward.bind forward.host forward.guest = .ok forward := dif_pos forward.len_eq
  rw [fromStr, forward.display_eq, rsplitOnceChar_append hguest]
  cases hstart : forward.start with
  | none =>
    rw [hstart, Option.map_none] at hprefix
    simp only [String.ofList_toList, rsplitOnceChar_none hhost, parsePortRange_display, hprefix]
    exact hnew
  | some start =>
    rw [hstart, Option.map_some] at hprefix
    simp only [rsplitOnceChar_append hhost, String.ofList_toList, parsePortRange_display, hprefix]
    exact hnew

end Firestone
