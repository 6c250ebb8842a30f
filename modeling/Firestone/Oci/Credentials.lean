import Firestone.Lib.Utf8
import Firestone.Oci.Auth

/-!
# Credentials in base64

The `auth` field of a credentials file is a user and a secret in base64. The decoder keeps the bits it has read in one word,
whose high bits it never clears, and stops at the first padding character.

* `base64Decode` — the decoder, `decodeBasicAuth` the field.
* `Decoder.push_quad` — four symbols are three bytes, whatever is left in the word from before.
* `decodeChars_encode` — an encoded text is decoded, with its padding or without.
* `base64_roundTrip` — the same with white space anywhere in it.
-/

namespace Firestone.Oci

open Firestone.Lib

/-! ## The decoder -/

/-- The position of a character in the alphabet. -/
def base64Index (character : Char) : Option Nat :=
  if character.toNat < 256 then base64Alphabet.idxOf? character else none

structure Decoder where
  accumulator : UInt32
  bits : Nat
  output : Bytes

/-- A symbol is read. -/
def Decoder.push (s : Decoder) (index : Nat) : Decoder :=
  let accumulator := (s.accumulator <<< 6) ||| UInt32.ofNat index
  let bits := s.bits + 6
  if 8 ≤ bits then
    ⟨accumulator, bits - 8, s.output ++ [((accumulator >>> UInt32.ofNat (bits - 8)) &&& 0xff).toUInt8]⟩
  else ⟨accumulator, bits, s.output⟩

@[grind =] def decodeChars (s : Decoder) : List Char → Option Bytes
  | [] => some s.output
  | character :: rest =>
    if character = '=' then some s.output
    else if isWhitespace character then decodeChars s rest
    else match base64Index character with
      | some index => decodeChars (s.push index) rest
      | none => none

/-- Standard base64, with or without padding. -/
def base64Decode (value : String) : Option Bytes := decodeChars ⟨0, 0, []⟩ value.toList

def decodeBasicAuth (value : String) : Option BasicCredential := do
  let decoded ← base64Decode (trim value)
  let text ← fromUtf8 decoded
  let (user, secret) ← splitOnce ':' text
  if user = "" then none else some ⟨user, secret⟩

/-! ## Symbols -/

theorem base64Alphabet_eq : base64Alphabet = ['A', 'B', 'C', 'D', 'E', 'F', 'G', 'H', 'I', 'J', 'K', 'L', 'M', 'N', 'O',
    'P', 'Q', 'R', 'S', 'T', 'U', 'V', 'W', 'X', 'Y', 'Z', 'a', 'b', 'c', 'd', 'e', 'f', 'g', 'h', 'i', 'j', 'k', 'l', 'm',
    'n', 'o', 'p', 'q', 'r', 's', 't', 'u', 'v', 'w', 'x', 'y', 'z', '0', '1', '2', '3', '4', '5', '6', '7', '8', '9', '+',
    '/'] := String.toList_ofList

theorem length_base64Alphabet : base64Alphabet.length = 64 := by rw [base64Alphabet_eq]; rfl

theorem base64Symbol_mem {index : Nat} (h : index < 64) : base64Symbol index ∈ base64Alphabet := by
  have hlen : index < base64Alphabet.length := by rw [length_base64Alphabet]; exact h
  rw [base64Symbol, List.getD_eq_getElem?_getD, List.getElem?_eq_getElem hlen]
  exact List.getElem_mem hlen

/-- A symbol is neither padding nor white space. -/
theorem plain_of_mem {c : Char} (h : c ∈ base64Alphabet) : c ≠ '=' ∧ isWhitespace c = false := by
  rw [base64Alphabet_eq] at h
  exact forall_mem_of_all (p := fun c => c ≠ '=' ∧ isWhitespace c = false) (by decide) c h

theorem base64Index_symbol {index : Nat} (h : index < 64) : base64Index (base64Symbol index) = some index := by
  have hall : ∀ i < 64, (if ((base64Alphabet.getD i 'A').toNat < 256) then base64Alphabet.idxOf? (base64Alphabet.getD i 'A')
      else none) = some i := by
    rw [base64Alphabet_eq]
    decide
  exact hall index h

theorem decodeChars_symbol (s : Decoder) {index : Nat} (h : index < 64) (rest : List Char) :
    decodeChars s (base64Symbol index :: rest) = decodeChars (s.push index) rest := by
  obtain ⟨hpadding, hspace⟩ := plain_of_mem (base64Symbol_mem h)
  rw [decodeChars, if_neg hpadding, if_neg (by simp [hspace]), base64Index_symbol h]

/-! ## The word -/

theorem toNat_accumulator (accumulator : UInt32) {index : Nat} (h : index < 64) :
    ((accumulator <<< 6) ||| UInt32.ofNat index).toNat = accumulator.toNat * 64 % 2 ^ 32 + index := by
  have hshift : (accumulator <<< 6).toNat = 2 ^ 6 * (accumulator.toNat % 2 ^ 26) := by
    rw [UInt32.toNat_shiftLeft]
    simp only [UInt32.reduceToNat, Nat.shiftLeft_eq, Nat.reduceMod, Nat.reducePow]
    omega
  have hindex : (UInt32.ofNat index).toNat = index := by
    rw [UInt32.toNat_ofNat']
    omega
  rw [UInt32.toNat_or, hshift, hindex, ← Nat.two_pow_add_eq_or_of_lt (by omega)]
  omega

theorem byte_accumulator (accumulator : UInt32) {bits : Nat} (h : bits < 32) :
    ((accumulator >>> UInt32.ofNat bits) &&& 0xff).toUInt8 = UInt8.ofNat (accumulator.toNat / 2 ^ bits % 256) := by
  have hbits : (UInt32.ofNat bits).toNat % 32 = bits := by
    rw [UInt32.toNat_ofNat']
    omega
  have hmask : ((accumulator >>> UInt32.ofNat bits) &&& 0xff).toNat = accumulator.toNat / 2 ^ bits % 256 := by
    rw [UInt32.toNat_and, UInt32.toNat_shiftRight, hbits, Nat.shiftRight_eq_div_pow]
    exact Nat.and_two_pow_sub_one_eq_mod _ 8
  refine UInt8.toNat_inj.mp ?_
  rw [UInt32.toNat_toUInt8, hmask, UInt8.toNat_ofNat']

/-- Not enough bits for a byte. -/
theorem push_wait {s : Decoder} (hs : s.bits = 0) {index : Nat} (h : index < 64) :
    ∃ accumulator : UInt32, accumulator.toNat = s.accumulator.toNat * 64 % 2 ^ 32 + index ∧
      s.push index = ⟨accumulator, 6, s.output⟩ := by
  refine ⟨_, toNat_accumulator s.accumulator h, ?_⟩
  rw [Decoder.push, hs]
  exact if_neg (by decide)

theorem push_byte (accumulator : UInt32) (output : Bytes) {held bits : Nat} (hheld : held = bits + 2) (hbits : bits < 6)
    {index : Nat} (h : index < 64) : ∃ next : UInt32, next.toNat = accumulator.toNat * 64 % 2 ^ 32 + index ∧
      Decoder.push ⟨accumulator, held, output⟩ index =
        ⟨next, bits, output ++ [UInt8.ofNat (next.toNat / 2 ^ bits % 256)]⟩ := by
  refine ⟨_, toNat_accumulator accumulator h, ?_⟩
  have hleft : held + 6 - 8 = bits := by omega
  unfold Decoder.push
  rw [if_pos (by simp only; omega), hleft, byte_accumulator _ (by omega)]

/-- Two symbols are a byte and four bits: what the word held before them is shifted out of the byte. -/
theorem push_pair {s : Decoder} (hs : s.bits = 0) {i j : Nat} (hi : i < 64) (hj : j < 64) :
    ∃ accumulator : UInt32, accumulator.toNat % 16 = j % 16 ∧
      (s.push i).push j = ⟨accumulator, 4, s.output ++ [UInt8.ofNat (i * 4 + j / 16)]⟩ := by
  obtain ⟨first, hfirst, hpush⟩ := push_wait hs hi
  obtain ⟨second, hsecond, hbyte⟩ := push_byte first s.output (show 6 = 4 + 2 from rfl) (by decide) hj
  have hvalue : second.toNat / 2 ^ 4 % 256 = i * 4 + j / 16 := by omega
  refine ⟨second, by omega, ?_⟩
  rw [hpush, hbyte, hvalue]

/-- A third symbol completes a second byte. -/
theorem push_triple {s : Decoder} (hs : s.bits = 0) {i j k : Nat} (hi : i < 64) (hj : j < 64) (hk : k < 64) :
    ∃ accumulator : UInt32, accumulator.toNat % 4 = k % 4 ∧
      ((s.push i).push j).push k =
        ⟨accumulator, 2, s.output ++ [UInt8.ofNat (i * 4 + j / 16), UInt8.ofNat (j % 16 * 16 + k / 4)]⟩ := by
  obtain ⟨second, hlow, hpair⟩ := push_pair hs hi hj
  obtain ⟨third, hthird, hbyte⟩ := push_byte second (s.output ++ [UInt8.ofNat (i * 4 + j / 16)])
    (show 4 = 2 + 2 from rfl) (by decide) hk
  have hvalue : third.toNat / 2 ^ 2 % 256 = j % 16 * 16 + k / 4 := by omega
  refine ⟨third, by omega, ?_⟩
  rw [hpair, hbyte, hvalue, List.append_assoc]
  rfl

/-- Four symbols are three bytes. -/
theorem push_quad {s : Decoder} (hs : s.bits = 0) {i j k l : Nat} (hi : i < 64) (hj : j < 64) (hk : k < 64) (hl : l < 64) :
    ∃ accumulator : UInt32, (((s.push i).push j).push k).push l = ⟨accumulator, 0, s.output ++
      [UInt8.ofNat (i * 4 + j / 16), UInt8.ofNat (j % 16 * 16 + k / 4), UInt8.ofNat (k % 4 * 64 + l)]⟩ := by
  obtain ⟨third, hlow, htriple⟩ := push_triple hs hi hj hk
  obtain ⟨fourth, hfourth, hbyte⟩ := push_byte third
    (s.output ++ [UInt8.ofNat (i * 4 + j / 16), UInt8.ofNat (j % 16 * 16 + k / 4)]) (show 2 = 0 + 2 from rfl) (by decide) hl
  have hvalue : fourth.toNat / 2 ^ 0 % 256 = k % 4 * 64 + l := by omega
  refine ⟨fourth, ?_⟩
  rw [htriple, hbyte, hvalue, List.append_assoc]
  rfl

/-! ## The round trip -/

/-- A beginning of a text whose rest is padding. -/
theorem cons_of_padding {w l : List Char} {x : Char} {removed : Nat} (hx : x ≠ '=')
    (h : w ++ List.replicate removed '=' = x :: l) : ∃ w', w = x :: w' ∧ w' ++ List.replicate removed '=' = l := by
  cases w with
  | nil =>
    have hmem : x ∈ List.replicate removed '=' := by
      rw [show List.replicate removed '=' = x :: l from h]
      exact List.mem_cons_self
    exact absurd (List.eq_of_mem_replicate hmem) hx
  | cons y w' =>
    obtain ⟨rfl, hrest⟩ := List.cons.inj h
    exact ⟨w', rfl, hrest⟩

theorem decodeChars_padding {s : Decoder} {w padding : List Char} {removed : Nat} (hpadding : ∀ c ∈ padding, c = '=')
    (h : w ++ List.replicate removed '=' = padding) : decodeChars s w = some s.output := by
  cases w with
  | nil => rfl
  | cons x w =>
    have hx : x ∈ padding := by
      rw [← h]
      exact List.mem_cons_self
    rw [decodeChars, if_pos (hpadding x hx)]

/-- **What was encoded is decoded**, with any of the padding removed, by a decoder that is between two groups. -/
theorem decodeChars_encode (b : Bytes) : ∀ (s : Decoder) (w : List Char) (removed : Nat), s.bits = 0 →
    w ++ List.replicate removed '=' = base64Encode b → decodeChars s w = some (s.output ++ b) := by
  have hplain : ∀ i, base64Symbol (i % 64) ≠ '=' := fun i => (plain_of_mem (base64Symbol_mem (Nat.mod_lt _ (by decide)))).1
  have hlt : ∀ i, i % 64 < 64 := fun i => Nat.mod_lt _ (by decide)
  induction b using base64Encode.induct with
  | case1 x y z rest ih =>
    intro s w removed hs h
    have hx := x.toNat_lt
    have hy := y.toNat_lt
    have hz := z.toNat_lt
    rw [base64Encode] at h
    generalize hvalue : x.toNat * 65536 + y.toNat * 256 + z.toNat = value at h
    obtain ⟨w1, rfl, h1⟩ := cons_of_padding (hplain _) h
    obtain ⟨w2, rfl, h2⟩ := cons_of_padding (hplain _) h1
    obtain ⟨w3, rfl, h3⟩ := cons_of_padding (hplain _) h2
    obtain ⟨w4, rfl, h4⟩ := cons_of_padding (hplain _) h3
    obtain ⟨accumulator, hquad⟩ := push_quad hs (hlt (value / 262144)) (hlt (value / 4096)) (hlt (value / 64)) (hlt value)
    have hfirst : value / 262144 % 64 * 4 + value / 4096 % 64 / 16 = x.toNat := by omega
    have hsecond : value / 4096 % 64 % 16 * 16 + value / 64 % 64 / 4 = y.toNat := by omega
    have hthird : value / 64 % 64 % 4 * 64 + value % 64 = z.toNat := by omega
    rw [hfirst, hsecond, hthird, UInt8.ofNat_toNat, UInt8.ofNat_toNat, UInt8.ofNat_toNat] at hquad
    rw [decodeChars_symbol _ (hlt _), decodeChars_symbol _ (hlt _), decodeChars_symbol _ (hlt _),
      decodeChars_symbol _ (hlt _), hquad, ih _ _ _ rfl h4]
    simp
  | case2 x y =>
    intro s w removed hs h
    have hx := x.toNat_lt
    have hy := y.toNat_lt
    rw [base64Encode] at h
    generalize hvalue : x.toNat * 65536 + y.toNat * 256 = value at h
    obtain ⟨w1, rfl, h1⟩ := cons_of_padding (hplain _) h
    obtain ⟨w2, rfl, h2⟩ := cons_of_padding (hplain _) h1
    obtain ⟨w3, rfl, h3⟩ := cons_of_padding (hplain _) h2
    obtain ⟨accumulator, -, htriple⟩ := push_triple hs (hlt (value / 262144)) (hlt (value / 4096)) (hlt (value / 64))
    have hfirst : value / 262144 % 64 * 4 + value / 4096 % 64 / 16 = x.toNat := by omega
    have hsecond : value / 4096 % 64 % 16 * 16 + value / 64 % 64 / 4 = y.toNat := by omega
    rw [hfirst, hsecond, UInt8.ofNat_toNat, UInt8.ofNat_toNat] at htriple
    rw [decodeChars_symbol _ (hlt _), decodeChars_symbol _ (hlt _), decodeChars_symbol _ (hlt _), htriple]
    exact decodeChars_padding (by simp) h3
  | case3 x =>
    intro s w removed hs h
    have hx := x.toNat_lt
    rw [base64Encode] at h
    generalize hvalue : x.toNat * 65536 = value at h
    obtain ⟨w1, rfl, h1⟩ := cons_of_padding (hplain _) h
    obtain ⟨w2, rfl, h2⟩ := cons_of_padding (hplain _) h1
    obtain ⟨accumulator, -, hpair⟩ := push_pair hs (hlt (value / 262144)) (hlt (value / 4096))
    have hfirst : value / 262144 % 64 * 4 + value / 4096 % 64 / 16 = x.toNat := by omega
    rw [hfirst, UInt8.ofNat_toNat] at hpair
    rw [decodeChars_symbol _ (hlt _), decodeChars_symbol _ (hlt _), hpair]
    exact decodeChars_padding (by simp) h2
  | case4 =>
    intro s w removed hs h
    rw [decodeChars_padding (by simp [base64Encode]) h, List.append_nil]

/-- White space is skipped, wherever it stands. -/
theorem decodeChars_filter (w : List Char) : ∀ s : Decoder, decodeChars s (w.filter (!isWhitespace ·)) = decodeChars s w := by
  induction w with
  | nil => exact fun s => rfl
  | cons c w ih =>
    intro s
    by_cases hc : isWhitespace c = true
    · have hpadding : c ≠ '=' := by
        rintro rfl
        revert hc
        decide
      rw [List.filter_cons_of_neg (by simp [hc]), decodeChars, if_neg hpadding, if_pos hc, ih]
    · rw [List.filter_cons_of_pos (by simpa using hc), decodeChars, decodeChars]
      simp only [ih]

theorem filter_dropWhile (w : List Char) :
    (w.dropWhile isWhitespace).filter (!isWhitespace ·) = w.filter (!isWhitespace ·) := by
  induction w with
  | nil => rfl
  | cons c w ih =>
    by_cases hc : isWhitespace c = true
    · rw [List.dropWhile_cons_of_pos hc, ih, List.filter_cons_of_neg (by simp [hc])]
    · rw [List.dropWhile_cons_of_neg hc]

theorem filter_trimChars (w : List Char) : (trimChars w).filter (!isWhitespace ·) = w.filter (!isWhitespace ·) := by
  rw [trimChars, List.filter_reverse, filter_dropWhile, List.filter_reverse, List.reverse_reverse, filter_dropWhile]

/-- The text is the encoding of the bytes, with some of its padding removed and white space inserted. -/
def Writes (b : Bytes) (text : String) : Prop :=
  ∃ removed, text.toList.filter (!isWhitespace ·) ++ List.replicate removed '=' = base64Encode b

theorem base64Decode_writes {b : Bytes} {text : String} (h : Writes b text) : base64Decode text = some b := by
  obtain ⟨removed, htext⟩ := h
  rw [base64Decode, ← decodeChars_filter]
  exact decodeChars_encode b ⟨0, 0, []⟩ _ removed rfl htext

theorem Writes.trim {b : Bytes} {text : String} (h : Writes b text) : Writes b (trim text) := by
  obtain ⟨removed, htext⟩ := h
  refine ⟨removed, ?_⟩
  rw [Lib.trim, String.toList_ofList, filter_trimChars, htext]

/-- The encoder's own text has no white space. -/
theorem writes_encode (b : Bytes) : Writes b (String.ofList (base64Encode b)) := by
  have hplain : ∀ i, isWhitespace (base64Symbol (i % 64)) = false :=
    fun i => (plain_of_mem (base64Symbol_mem (Nat.mod_lt _ (by decide)))).2
  have hpadding : isWhitespace '=' = false := by decide
  refine ⟨0, ?_⟩
  rw [String.toList_ofList, List.replicate_zero, List.append_nil, List.filter_eq_self]
  induction b using base64Encode.induct with
  | case1 x y z rest ih =>
    rw [base64Encode]
    simpa [hplain] using ih
  | case2 x y =>
    rw [base64Encode]
    simp [hplain, hpadding]
  | case3 x =>
    rw [base64Encode]
    simp [hplain, hpadding]
  | case4 => simp [base64Encode]

/-- **Base64 credentials round-trip**: bytes are read back from their encoding, also with padding removed and white space
inserted; a user and a secret are read back from theirs. -/
theorem base64_roundTrip (b : Bytes) (text : String) :
    base64Decode (String.ofList (base64Encode b)) = some b ∧ (Writes b text → base64Decode text = some b) ∧
    ∀ user secret : String, user ≠ "" → ':' ∉ user.toList → Writes (bytes (user ++ ":" ++ secret)) text →
      decodeBasicAuth text = some ⟨user, secret⟩ := by
  refine ⟨base64Decode_writes (writes_encode b), base64Decode_writes, ?_⟩
  intro user secret hne hcolon htext
  have hsplit : splitOnce ':' (user ++ ":" ++ secret) = some (user, secret) := by
    have hlist : user ++ ":" ++ secret = String.ofList (user.toList ++ ':' :: secret.toList) := by
      refine String.toList_inj.mp ?_
      simp
    rw [hlist, splitOnce_append hcolon, String.ofList_toList, String.ofList_toList]
  rw [decodeBasicAuth, base64Decode_writes htext.trim]
  simp only [Option.bind_eq_bind, Option.bind_some, fromUtf8_bytes, hsplit, if_neg hne]

/-- A field without its padding and with a space and a line feed in it. -/
theorem base64_roundTrip_field : decodeBasicAuth "YW I6\nYw" = some ⟨"ab", "c"⟩ := by
  have hfield : Writes (bytes ("ab" ++ ":" ++ "c")) "YW I6\nYw" := by
    refine ⟨2, ?_⟩
    unfold base64Encode base64Symbol
    rw [base64Alphabet_eq]
    decide
  exact (base64_roundTrip (bytes "ab:c") "YW I6\nYw").2.2 "ab" "c" (by decide) (by decide) hfield

end Firestone.Oci
