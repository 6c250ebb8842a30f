import Firestone.Lib.Bytes
import Mathlib.Tactic.Common

/-!
# One's-complement sums

Sums of 16-bit words with the carries added in again at the low end, as Internet checksums are made of.

* `endAround` — the carries of a sum are folded until none is left.
* `endAround_mod`, `endAround_pos` — this is the sum modulo 65535, and never zero for a sum that is not.
* `endAround_add_complement` — a sum and its complement make 65535.
-/

namespace Firestone.Lib

/-- A number of 16 bits from its high and its low byte. -/
def u16FromBeBytes (high low : UInt8) : Nat := high.toNat * 256 + low.toNat

/-- The low 16 bits of a number, the high byte first. -/
def u16ToBeBytes (n : Nat) : Bytes := [UInt8.ofNat (n / 256), UInt8.ofNat n]

theorem u16FromBeBytes_ofNat (n : Nat) : u16FromBeBytes (UInt8.ofNat (n / 256)) (UInt8.ofNat n) = n % 65536 := by
  rw [u16FromBeBytes, UInt8.toNat_ofNat', UInt8.toNat_ofNat']
  omega

/-- The sum of the words, the high byte of each first; a last byte alone is a high byte. -/
@[grind =] def wordSum : Bytes → Nat
  | high :: low :: rest => u16FromBeBytes high low + wordSum rest
  | [last] => u16FromBeBytes last 0
  | [] => 0

/-- The carries of a sum are added in at the low end until none is left. -/
def endAround (sum : Nat) : Nat :=
  if sum / 65536 ≠ 0 then endAround (sum % 65536 + sum / 65536) else sum
termination_by sum
decreasing_by omega

theorem endAround_lt (sum : Nat) : endAround sum < 65536 := by
  induction sum using endAround.induct with
  | case1 sum hcarry ih =>
    rw [endAround, if_pos hcarry]
    exact ih
  | case2 sum hcarry =>
    rw [endAround, if_neg hcarry]
    omega

theorem endAround_mod (sum : Nat) : endAround sum % 65535 = sum % 65535 := by
  induction sum using endAround.induct with
  | case1 sum hcarry ih =>
    rw [endAround, if_pos hcarry, ih]
    omega
  | case2 sum hcarry => rw [endAround, if_neg hcarry]

theorem endAround_pos {sum : Nat} (h : 0 < sum) : 0 < endAround sum := by
  induction sum using endAround.induct with
  | case1 sum hcarry ih =>
    rw [endAround, if_pos hcarry]
    exact ih (by omega)
  | case2 sum hcarry =>
    rw [endAround, if_neg hcarry]
    exact h

/-- **A sum and its complement make a sum of ones.** -/
theorem endAround_add_complement {sum : Nat} (h : 0 < sum) : endAround (sum + (65535 - endAround sum)) = 65535 := by
  have hlt := endAround_lt sum
  have hmod := endAround_mod sum
  have htotal : (sum + (65535 - endAround sum)) % 65535 = 0 := by omega
  have hlt' := endAround_lt (sum + (65535 - endAround sum))
  have hmod' := endAround_mod (sum + (65535 - endAround sum))
  have hpos : 0 < endAround (sum + (65535 - endAround sum)) := endAround_pos (by omega)
  omega

end Firestone.Lib
