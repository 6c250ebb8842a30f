import Firestone.Lib.Bytes

/-!
# Decimal numbers in byte strings

* `decimal n` — the digits of `n` in ASCII.
* `parseDecimal bound s` — what a reader of unsigned numbers below `bound` accepts: digits with an optional plus sign.
* `parseDecimal_decimal` — reading gives the number back.
* `fixedDigits base k n` — the `k` low digits of `n`, the highest first; `digitValue_fixedDigits` reads them back.
* `selfLength n` — the least length that counts `n` bytes and its own digits.
-/

namespace Firestone.Lib

/-- The ASCII digits of a number. -/
def decimal (n : Nat) : Bytes := (Nat.toDigits 10 n).map fun c => UInt8.ofNat c.toNat

def isDecimalDigit (b : UInt8) : Bool := 0x30 ≤ b && b ≤ 0x39

/-- Digits with an optional plus sign, for a number below the bound. -/
def parseDecimal (bound : Nat) (s : Bytes) : Option Nat :=
  let digits := if s.head? = some 0x2B then s.tail else s
  if digits ≠ [] ∧ digits.all isDecimalDigit then
    let value := Nat.ofDigitChars 10 (digits.map fun b => Char.ofNat b.toNat) 0
    if value < bound then some value else none
  else none

/-- A digit goes through its byte and back. -/
theorem digit_byte {c : Char} (h : c.isDigit = true) :
    isDecimalDigit (UInt8.ofNat c.toNat) = true ∧ Char.ofNat (UInt8.ofNat c.toNat).toNat = c := by
  have hrange : 48 ≤ c.toNat ∧ c.toNat ≤ 57 := by
    simp only [Char.isDigit, Bool.and_eq_true, decide_eq_true_eq, ge_iff_le] at h
    exact ⟨h.1, h.2⟩
  have hbyte : (UInt8.ofNat c.toNat).toNat = c.toNat := by
    rw [UInt8.toNat_ofNat']
    omega
  constructor
  · simp only [isDecimalDigit, Bool.and_eq_true, decide_eq_true_eq, UInt8.le_iff_toNat_le, hbyte]
    exact hrange
  · rw [hbyte, Char.ofNat_toNat]

theorem decimal_ne_nil (n : Nat) : decimal n ≠ [] := by
  simp [decimal, Nat.toDigits_ne_nil]

theorem isDecimalDigit_of_mem {n : Nat} {b : UInt8} (h : b ∈ decimal n) : isDecimalDigit b = true := by
  obtain ⟨c, hc, rfl⟩ := List.mem_map.mp h
  exact (digit_byte (Nat.isDigit_of_mem_toDigits (by decide) (by decide) hc)).1

theorem parseDecimal_decimal {bound n : Nat} (h : n < bound) : parseDecimal bound (decimal n) = some n := by
  have hback : (decimal n).map (fun b => Char.ofNat b.toNat) = Nat.toDigits 10 n := by
    rw [decimal, List.map_map]
    refine (List.map_congr_left fun c hc => ?_).trans (List.map_id _)
    exact (digit_byte (Nat.isDigit_of_mem_toDigits (by decide) (by decide) hc)).2
  have hplus : (decimal n).head? ≠ some 0x2B := by
    intro hhead
    have hmem : (0x2B : UInt8) ∈ decimal n := List.mem_of_mem_head? hhead
    have hdigit := isDecimalDigit_of_mem hmem
    revert hdigit
    decide
  have hall : (decimal n).all isDecimalDigit = true := List.all_eq_true.mpr fun b hb => isDecimalDigit_of_mem hb
  simp only [parseDecimal, if_neg hplus]
  rw [if_pos ⟨decimal_ne_nil n, hall⟩, hback, Nat.ofDigitChars_ten_toDigits, if_pos h]

/-- A number that is read is below the power its digits allow. -/
theorem parseDecimal_lt {bound n : Nat} {s : Bytes} (h : parseDecimal bound s = some n) :
    n < bound ∧ n < 10 ^ s.length := by
  have hdigits : ∀ l : Bytes, l.all isDecimalDigit = true →
      Nat.ofDigitChars 10 (l.map fun b => Char.ofNat b.toNat) 0 < 10 ^ l.length := by
    intro l
    induction l with
    | nil => simp
    | cons b l ih =>
      intro hall
      simp only [List.all_cons, Bool.and_eq_true] at hall
      have hl := ih hall.2
      have hb : b.toNat ≤ 57 := by
        have := hall.1
        simp only [isDecimalDigit, Bool.and_eq_true, decide_eq_true_eq, UInt8.le_iff_toNat_le] at this
        exact this.2
      have hvalid : b.toNat.isValidChar := Or.inl (by omega)
      have hchar : (Char.ofNat b.toNat).toNat = b.toNat := by
        rw [Char.ofNat, dif_pos hvalid]
        rfl
      have hle : b.toNat - 48 ≤ 9 := by omega
      have hmul : 10 ^ l.length * (b.toNat - 48) ≤ 10 ^ l.length * 9 := Nat.mul_le_mul_left _ hle
      simp only [List.map_cons, List.length_cons, Nat.ofDigitChars_cons, Nat.pow_succ, hchar]
      rw [Nat.ofDigitChars_eq_ofDigitChars_zero, List.length_map]
      simp only [Nat.mul_zero, Nat.zero_add, Char.reduceToNat]
      omega
  have hlen : (if s.head? = some 0x2B then s.tail else s).length ≤ s.length := by
    split
    · rw [List.length_tail]
      omega
    · exact Nat.le_refl _
  unfold parseDecimal at h
  simp only at h
  generalize (if s.head? = some 0x2B then s.tail else s) = digits at h hlen
  split at h
  · rename_i hd
    split at h
    · rename_i hv
      cases h
      exact ⟨hv, Nat.lt_of_lt_of_le (hdigits _ hd.2) (Nat.pow_le_pow_right (by decide) hlen)⟩
    · cases h
  · cases h

/-! ## Digits of a fixed number -/

/-- The `k` low digits of a number, the highest first. -/
@[grind =] def fixedDigits (base : Nat) : Nat → Nat → List Nat
  | 0, _ => []
  | k + 1, n => fixedDigits base k (n / base) ++ [n % base]

def digitValue (base : Nat) (digits : List Nat) : Nat := digits.foldl (fun value d => base * value + d) 0

@[simp] theorem length_fixedDigits (base : Nat) : ∀ k n, (fixedDigits base k n).length = k
  | 0, _ => rfl
  | k + 1, n => by rw [fixedDigits, List.length_append, length_fixedDigits base k, List.length_singleton]

theorem lt_of_mem_fixedDigits {base : Nat} (hb : 0 < base) : ∀ {k n d : Nat}, d ∈ fixedDigits base k n → d < base
  | 0, _, _, h => by cases h
  | k + 1, n, d, h => by
    rcases List.mem_append.mp h with h | h
    · exact lt_of_mem_fixedDigits hb h
    · rw [List.mem_singleton.mp h]
      exact Nat.mod_lt _ hb

theorem digitValue_fixedDigits {base : Nat} (hb : 0 < base) : ∀ {k n : Nat}, n < base ^ k →
    digitValue base (fixedDigits base k n) = n
  | 0, n, h => by
    rw [Nat.pow_zero] at h
    obtain rfl : n = 0 := by omega
    rfl
  | k + 1, n, h => by
    have hdiv : n / base < base ^ k := by
      rw [Nat.pow_succ] at h
      exact Nat.div_lt_of_lt_mul (by rwa [Nat.mul_comm] at h)
    have ih := digitValue_fixedDigits hb hdiv
    unfold digitValue at ih ⊢
    rw [fixedDigits, List.foldl_append, ih]
    exact Nat.div_add_mod n base

/-! ## Lengths that count themselves -/

theorem length_decimal_le_iff {n k : Nat} (h : 0 < k) : (decimal n).length ≤ k ↔ n < 10 ^ k := by
  rw [decimal, List.length_map, Nat.length_toDigits_le_iff (by decide) h]

theorem length_decimal_pos (n : Nat) : 0 < (decimal n).length := List.length_pos_iff.mpr (decimal_ne_nil n)

theorem length_decimal_mono {m n : Nat} (h : m ≤ n) : (decimal m).length ≤ (decimal n).length := by
  refine (length_decimal_le_iff (length_decimal_pos n)).mpr (Nat.lt_of_le_of_lt h ?_)
  exact (length_decimal_le_iff (length_decimal_pos n)).mp (Nat.le_refl _)

/-- Applies `f` until nothing changes, at most `k` times. -/
@[grind =] def settle (f : Nat → Nat) : Nat → Nat → Nat
  | 0, x => x
  | k + 1, x => if f x = x then x else settle f k (f x)

/-- The length of `n` bytes, two separators and the digits of a length. -/
def lengthWith (n length : Nat) : Nat := (decimal length).length + 1 + n + 1

/-- The length of a record of `n` bytes that starts with its own length. -/
def selfLength (n : Nat) : Nat := settle (lengthWith n) 3 (n + 2)

/-- Three rounds are enough: the number of digits grows at most once. -/
theorem selfLength_fixed (n : Nat) : lengthWith n (selfLength n) = selfLength n := by
  have hd := length_decimal_pos (n + 2)
  have hlt : n + 2 < 10 ^ (decimal (n + 2)).length := (length_decimal_le_iff hd).mp (Nat.le_refl _)
  have hdlt : (decimal (n + 2)).length < 10 ^ (decimal (n + 2)).length := Nat.lt_pow_self (by decide)
  have hpow : 10 ^ ((decimal (n + 2)).length + 1) = 10 * 10 ^ (decimal (n + 2)).length := by rw [Nat.pow_succ]; omega
  generalize hdef : (decimal (n + 2)).length = d at *
  have hfirst : lengthWith n (n + 2) = n + 2 + d := by rw [lengthWith, hdef]; omega
  have hge : ∀ m, n + 2 ≤ m → d ≤ (decimal m).length := fun m hm => hdef ▸ length_decimal_mono hm
  have hle : ∀ m, m < 10 * 10 ^ d → (decimal m).length ≤ d + 1 := fun m hm =>
    (length_decimal_le_iff (by omega)).mpr (by rw [hpow]; exact hm)
  have hlow := hge (n + 2 + d) (by omega)
  have hhigh := hle (n + 2 + d) (by omega)
  unfold selfLength
  rw [settle, if_neg (by omega), hfirst]
  by_cases hsame : (decimal (n + 2 + d)).length = d
  · have hfix : lengthWith n (n + 2 + d) = n + 2 + d := by rw [lengthWith, hsame]; omega
    rw [settle, if_pos hfix, hfix]
  · have hsecond : lengthWith n (n + 2 + d) = n + 2 + d + 1 := by rw [lengthWith]; omega
    have hmore := length_decimal_mono (Nat.le_succ (n + 2 + d))
    have hbound := hle (n + 2 + d + 1) (by omega)
    have hfix : lengthWith n (n + 2 + d + 1) = n + 2 + d + 1 := by
      rw [lengthWith]
      simp only [Nat.succ_eq_add_one] at hmore
      omega
    rw [settle, if_neg (by omega), hsecond, settle, if_pos hfix, hfix]

/-- It is the least length that has room for itself. -/
theorem selfLength_le {n length : Nat} (h : lengthWith n length ≤ length) : selfLength n ≤ length := by
  have hsettle : ∀ k x, x ≤ length → settle (lengthWith n) k x ≤ length := by
    intro k
    induction k with
    | zero => exact fun x hx => hx
    | succ k ih =>
      intro x hx
      rw [settle]
      split
      · exact hx
      · refine ih _ (Nat.le_trans ?_ h)
        have := length_decimal_mono hx
        unfold lengthWith
        omega
  refine hsettle 3 (n + 2) ?_
  unfold lengthWith at h
  omega

/-- Rounds after a fixed point is reached change nothing. -/
theorem settle_of_fixed {f : Nat → Nat} {j k x : Nat} (hk : k ≤ j) (h : f (settle f k x) = settle f k x) :
    settle f j x = settle f k x := by
  induction k generalizing j x with
  | zero =>
    cases j with
    | zero => rfl
    | succ j => exact if_pos h
  | succ k ih =>
    obtain ⟨j, rfl⟩ : ∃ i, j = i + 1 := ⟨j - 1, by omega⟩
    rw [settle] at h ⊢
    rw [settle]
    split
    · rfl
    · rename_i hne
      rw [if_neg hne] at h
      exact ih (Nat.le_of_succ_le_succ hk) h

end Firestone.Lib
