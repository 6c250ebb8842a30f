import Firestone.Lib.Bytes
import Mathlib.Data.String.Basic
import Mathlib.Data.UInt
import Mathlib.Tactic.IntervalCases

/-!
# Texts

What header values and digests are taken apart with: trimming, the first occurrence of a separator, comparison without
regard to the case of ASCII letters, and lowercase hexadecimal.

* `splitOnce_append`, `rsplitOnceChar_append` — a text is taken apart at its first or last separator.
* `hexDigest_inj` — the text determines the bytes.
* `eqIgnoreAsciiCase_hexDigest` — two digests that match one text up to case are the same.
-/

namespace Firestone.Lib

/-- Characters with the Unicode property White_Space. -/
def isWhitespace (c : Char) : Bool :=
  let n := c.toNat
  (9 ≤ n && n ≤ 13) || n == 0x20 || n == 0x85 || n == 0xA0 || n == 0x1680 || (0x2000 ≤ n && n ≤ 0x200A) ||
    n == 0x2028 || n == 0x2029 || n == 0x202F || n == 0x205F || n == 0x3000

/-- Characters of the Unicode category Cc. -/
def isControl (c : Char) : Bool := c.toNat < 0x20 || (0x7f ≤ c.toNat && c.toNat ≤ 0x9f)

def trimChars (s : List Char) : List Char := ((s.dropWhile isWhitespace).reverse.dropWhile isWhitespace).reverse

def trim (s : String) : String := String.ofList (trimChars s.toList)

/-- A text that neither starts nor ends with white space is not trimmed. -/
theorem trimChars_eq {s : List Char} (hhead : ∀ c, s.head? = some c → isWhitespace c = false)
    (hlast : ∀ c, s.getLast? = some c → isWhitespace c = false) : trimChars s = s := by
  have hfront : s.dropWhile isWhitespace = s := by
    cases s with
    | nil => rfl
    | cons c s => exact List.dropWhile_cons_of_neg (by rw [hhead c rfl]; exact Bool.false_ne_true)
  have hback : s.reverse.dropWhile isWhitespace = s.reverse := by
    cases hs : s.reverse with
    | nil => rfl
    | cons c t =>
      have hc : s.getLast? = some c := by
        rw [← List.reverse_reverse s, List.getLast?_reverse, hs]
        rfl
      exact List.dropWhile_cons_of_neg (by rw [hlast c hc]; exact Bool.false_ne_true)
  rw [trimChars, hfront, hback, List.reverse_reverse]

def asciiLower (c : Char) : Char := if 'A' ≤ c && c ≤ 'Z' then Char.ofNat (c.toNat + 32) else c

def toAsciiLowercase (s : String) : String := String.ofList (s.toList.map asciiLower)

def eqIgnoreAsciiCase (s t : String) : Bool := s.toList.map asciiLower = t.toList.map asciiLower

/-! A claim about all characters of a text is decided by a look at the text, not at all characters there are. -/

section Decide

variable {α : Type} {p : α → Prop} [DecidablePred p]

theorem forall_mem_of_all {l : List α} (h : l.all (fun x => decide (p x)) = true) : ∀ x ∈ l, p x := fun x hx =>
  of_decide_eq_true (List.all_eq_true.mp h x hx)

theorem forall_some_of_all {o : Option α} (h : o.all (fun x => decide (p x)) = true) : ∀ x, o = some x → p x := by
  rintro x rfl
  exact of_decide_eq_true h

end Decide

/-- The text before and after the first `c`. -/
def splitOnce (c : Char) (s : String) : Option (String × String) :=
  if c ∈ s.toList then
    some (String.ofList (s.toList.takeWhile (· ≠ c)), String.ofList ((s.toList.dropWhile (· ≠ c)).tail))
  else none

theorem splitOnce_append {c : Char} {s t : List Char} (h : c ∉ s) :
    splitOnce c (String.ofList (s ++ c :: t)) = some (String.ofList s, String.ofList t) := by
  have hs : ∀ x ∈ s, decide (x ≠ c) = true := by
    intro x hx
    rw [decide_eq_true_eq]
    rintro rfl
    exact h hx
  have htake : (s ++ c :: t).takeWhile (· ≠ c) = s := by
    rw [List.takeWhile_append_of_pos hs]
    simp
  have hdrop : (s ++ c :: t).dropWhile (· ≠ c) = c :: t := by
    rw [List.dropWhile_append_of_pos hs]
    simp
  rw [splitOnce, String.toList_ofList, if_pos (by simp), htake, hdrop]
  rfl

/-- A list at the first occurrence of an element. -/
theorem takeWhile_ne_append {α : Type} [DecidableEq α] {c : α} : ∀ {l : List α}, c ∈ l →
    l = l.takeWhile (· ≠ c) ++ c :: (l.dropWhile (· ≠ c)).tail
  | [], h => by cases h
  | x :: l, h => by
    by_cases hx : x = c
    · subst hx
      simp
    · have hc : c ∈ l := (List.mem_cons.mp h).resolve_left fun he => hx he.symm
      rw [List.takeWhile_cons_of_pos (by simpa using hx), List.dropWhile_cons_of_pos (by simpa using hx), List.cons_append,
        ← takeWhile_ne_append hc]

/-- A text that is taken apart is its two parts with the separator between them. -/
theorem eq_of_splitOnce {c : Char} {s a b : String} (h : splitOnce c s = some (a, b)) :
    s.toList = a.toList ++ c :: b.toList := by
  unfold splitOnce at h
  split at h
  · rename_i hc
    rw [Option.some.injEq, Prod.mk.injEq] at h
    obtain ⟨rfl, rfl⟩ := h
    rw [String.toList_ofList, String.toList_ofList]
    exact takeWhile_ne_append hc
  · cases h

/-- The text before and after the last `c`. -/
def rsplitOnceChar (c : Char) (s : String) : Option (String × String) :=
  if c ∈ s.toList then
    some (String.ofList ((s.toList.reverse.dropWhile (· ≠ c)).tail.reverse),
      String.ofList ((s.toList.reverse.takeWhile (· ≠ c)).reverse))
  else none

theorem rsplitOnceChar_append {c : Char} {s t : List Char} (h : c ∉ t) :
    rsplitOnceChar c (String.ofList (s ++ c :: t)) = some (String.ofList s, String.ofList t) := by
  have ht : ∀ x ∈ t.reverse, decide (x ≠ c) = true := by
    intro x hx
    rw [decide_eq_true_eq]
    rintro rfl
    exact h (List.mem_reverse.mp hx)
  have hrev : (s ++ c :: t).reverse = t.reverse ++ c :: s.reverse := by simp
  have htake : (t.reverse ++ c :: s.reverse).takeWhile (· ≠ c) = t.reverse := by
    rw [List.takeWhile_append_of_pos ht]
    simp
  have hdrop : (t.reverse ++ c :: s.reverse).dropWhile (· ≠ c) = c :: s.reverse := by
    rw [List.dropWhile_append_of_pos ht]
    simp
  rw [rsplitOnceChar, String.toList_ofList, if_pos (by simp), hrev, htake, hdrop]
  simp

theorem eq_of_rsplitOnceChar {c : Char} {s a b : String} (h : rsplitOnceChar c s = some (a, b)) :
    s.toList = a.toList ++ c :: b.toList := by
  unfold rsplitOnceChar at h
  split at h
  · rename_i hc
    rw [Option.some.injEq, Prod.mk.injEq] at h
    obtain ⟨rfl, rfl⟩ := h
    have hrev := congrArg List.reverse (takeWhile_ne_append (List.mem_reverse.mpr hc))
    rw [List.reverse_reverse] at hrev
    rw [String.toList_ofList, String.toList_ofList]
    simpa using hrev
  · cases h

theorem rsplitOnceChar_none {c : Char} {s : String} (h : c ∉ s.toList) : rsplitOnceChar c s = none := if_neg h

theorem splitOnce_none {c : Char} {s : String} (h : c ∉ s.toList) : splitOnce c s = none := if_neg h

/-- The rest of a text after a beginning that it has. -/
def stripPrefix (start s : String) : Option String :=
  if start.toList <+: s.toList then some (String.ofList (s.toList.drop start.toList.length)) else none

/-- The pieces of a text between separators. -/
def splitText (c : Char) (s : String) : List String := (s.toList.splitOn c).map String.ofList

/-- Every character is the separator or in a piece. -/
theorem mem_splitOn {α : Type} [DecidableEq α] {x c : α} : ∀ {l : List α}, c ∈ l → c = x ∨ ∃ piece ∈ l.splitOn x, c ∈ piece
  | [], h => by cases h
  | y :: l, h => by
    rw [List.splitOn_cons_eq_if_modifyHead]
    obtain ⟨first, others, hl⟩ := List.exists_cons_of_ne_nil (List.splitOn_ne_nil x l)
    split
    · rename_i hy
      rcases List.mem_cons.mp h with rfl | hc
      · exact .inl (by simpa using hy)
      · rcases mem_splitOn hc with hx | ⟨piece, hp, hcp⟩
        · exact .inl hx
        · exact .inr ⟨piece, List.mem_cons_of_mem _ hp, hcp⟩
    · rw [hl, List.modifyHead_cons]
      rcases List.mem_cons.mp h with rfl | hc
      · exact .inr ⟨_, List.mem_cons_self, List.mem_cons_self⟩
      · rcases mem_splitOn hc with hx | ⟨piece, hp, hcp⟩
        · exact .inl hx
        · rw [hl] at hp
          rcases List.mem_cons.mp hp with rfl | hp
          · exact .inr ⟨_, List.mem_cons_self, List.mem_cons_of_mem _ hcp⟩
          · exact .inr ⟨piece, List.mem_cons_of_mem _ hp, hcp⟩

/-- A piece has no other elements than the whole. -/
theorem mem_of_mem_splitOn {α : Type} [DecidableEq α] {x c : α} : ∀ {l piece : List α}, piece ∈ l.splitOn x → c ∈ piece →
    c ∈ l
  | [], piece, hp, hc => by
    rw [List.splitOn_nil, List.mem_singleton] at hp
    rwa [hp] at hc
  | y :: l, piece, hp, hc => by
    rw [List.splitOn_cons_eq_if_modifyHead] at hp
    obtain ⟨first, others, hl⟩ := List.exists_cons_of_ne_nil (List.splitOn_ne_nil x l)
    have hlater : ∀ piece' ∈ l.splitOn x, c ∈ piece' → c ∈ y :: l :=
      fun piece' hp' hc' => List.mem_cons_of_mem _ (mem_of_mem_splitOn hp' hc')
    split at hp
    · rcases List.mem_cons.mp hp with rfl | hp
      · cases hc
      · exact hlater piece hp hc
    · rw [hl, List.modifyHead_cons] at hp
      rcases List.mem_cons.mp hp with rfl | hp
      · rcases List.mem_cons.mp hc with rfl | hc
        · exact List.mem_cons_self
        · exact hlater first (hl ▸ List.mem_cons_self) hc
      · exact hlater piece (hl ▸ List.mem_cons_of_mem _ hp) hc

theorem mem_splitText {c x : Char} {s : String} (h : x ∈ s.toList) : x = c ∨ ∃ piece ∈ splitText c s, x ∈ piece.toList := by
  rcases mem_splitOn (x := c) h with hx | ⟨piece, hp, hcp⟩
  · exact .inl hx
  · exact .inr ⟨String.ofList piece, List.mem_map_of_mem hp, by rwa [String.toList_ofList]⟩

/-! ## Hexadecimal -/

def hexByte (b : UInt8) : List Char := [Nat.digitChar (b.toNat / 16), Nat.digitChar (b.toNat % 16)]

/-- Bytes as lowercase hexadecimal. -/
def hexDigest (bytes : Bytes) : String := String.ofList (bytes.flatMap hexByte)

theorem asciiLower_digitChar {n : Nat} (h : n < 16) : asciiLower (Nat.digitChar n) = Nat.digitChar n := by
  interval_cases n <;> decide

theorem digitChar_inj {m n : Nat} (hm : m < 16) (hn : n < 16) (h : Nat.digitChar m = Nat.digitChar n) : m = n := by
  interval_cases m <;> interval_cases n <;> first | rfl | (revert h; decide)

theorem hexByte_inj {a b : UInt8} (h : hexByte a = hexByte b) : a = b := by
  obtain ⟨hhi, hlo⟩ : Nat.digitChar (a.toNat / 16) = Nat.digitChar (b.toNat / 16) ∧
      Nat.digitChar (a.toNat % 16) = Nat.digitChar (b.toNat % 16) := by simpa [hexByte] using h
  have ha := a.toNat_lt
  have hb := b.toNat_lt
  have h1 := digitChar_inj (by omega) (by omega) hhi
  have h2 := digitChar_inj (Nat.mod_lt _ (by decide)) (Nat.mod_lt _ (by decide)) hlo
  refine UInt8.toNat_inj.mp ?_
  omega

theorem flatMap_hexByte_inj : ∀ {a b : Bytes}, a.flatMap hexByte = b.flatMap hexByte → a = b
  | [], [], _ => rfl
  | [], y :: b, h => by simp [hexByte] at h
  | x :: a, [], h => by simp [hexByte] at h
  | x :: a, y :: b, h => by
    rw [List.flatMap_cons, List.flatMap_cons] at h
    obtain ⟨hx, hrest⟩ := List.append_inj h rfl
    rw [hexByte_inj hx, flatMap_hexByte_inj hrest]

theorem hexDigest_inj {a b : Bytes} (h : hexDigest a = hexDigest b) : a = b := by
  refine flatMap_hexByte_inj ?_
  simpa [hexDigest] using congrArg String.toList h

theorem map_asciiLower_hexByte (b : UInt8) : (hexByte b).map asciiLower = hexByte b := by
  have hb := b.toNat_lt
  rw [hexByte, List.map_cons, List.map_cons, List.map_nil, asciiLower_digitChar (by omega),
    asciiLower_digitChar (Nat.mod_lt _ (by decide))]

theorem map_asciiLower_hexDigest (a : Bytes) : (hexDigest a).toList.map asciiLower = (hexDigest a).toList := by
  rw [hexDigest, String.toList_ofList, List.map_flatMap]
  exact congrArg (a.flatMap ·) (funext map_asciiLower_hexByte)

/-- Two digests that match one text up to case are the same. -/
theorem eqIgnoreAsciiCase_hexDigest {s : String} {a b : Bytes} (ha : eqIgnoreAsciiCase s (hexDigest a) = true)
    (hb : eqIgnoreAsciiCase s (hexDigest b) = true) : a = b := by
  rw [eqIgnoreAsciiCase, decide_eq_true_eq, map_asciiLower_hexDigest] at ha hb
  refine hexDigest_inj ?_
  exact String.toList_inj.mp (ha.symm.trans hb)

theorem eqIgnoreAsciiCase_refl (s : String) : eqIgnoreAsciiCase s s = true := decide_eq_true rfl

end Firestone.Lib
