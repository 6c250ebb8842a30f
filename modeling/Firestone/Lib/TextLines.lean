import Firestone.Lib.Lines
import Firestone.Lib.Text
import Mathlib.Data.List.TakeWhile

/-!
# Lines and blank pieces of texts

A text field of a form holds several values, one a line or between separators. Blank pieces are left out.

* `textLines` — `str::lines`.
* `nonBlank` — the pieces that are not blank, trimmed.
* `trim_eq_empty_iff` — a blank text has only white space.
* `nonBlank_textLines` — a text has only blank lines when it is blank.
* `trim_intercalate_eq_empty_iff` — a joined text is blank when its texts are.
-/

namespace Firestone.Lib

/-- A line without its newline, and without the carriage return before it. -/
def stripNewline (line : List Char) : List Char :=
  if line.getLast? = some '\n' then
    if line.dropLast.getLast? = some '\r' then line.dropLast.dropLast else line.dropLast
  else line

/-- `str::lines`. -/
def textLines (s : String) : List String := (endedPieces '\n' s.toList).map fun line => String.ofList (stripNewline line)

/-- The pieces that are not blank, trimmed. -/
def nonBlank (pieces : List String) : List String := (pieces.map trim).filter (· ≠ "")

/-- The carriage returns before newlines are taken out. -/
def replaceCrlf : List Char → List Char
  | '\r' :: '\n' :: rest => '\n' :: replaceCrlf rest
  | c :: rest => c :: replaceCrlf rest
  | [] => []

/-! ## White space -/

theorem trimChars_eq_nil_iff {s : List Char} : trimChars s = [] ↔ ∀ c ∈ s, isWhitespace c = true := by
  simp only [trimChars, List.reverse_eq_nil_iff, List.dropWhile_eq_nil_iff, List.mem_reverse]
  constructor
  · intro h
    by_contra hne
    have hdrop : s.dropWhile isWhitespace ≠ [] := fun hnil => hne (List.dropWhile_eq_nil_iff.mp hnil)
    have hhead := List.head_dropWhile_not isWhitespace hdrop
    rw [h _ (List.head_mem hdrop)] at hhead
    cases hhead
  · exact fun h c hc => h c ((List.dropWhile_sublist _).subset hc)

theorem trim_eq_empty_iff {s : String} : trim s = "" ↔ ∀ c ∈ s.toList, isWhitespace c = true := by
  rw [trim, ← trimChars_eq_nil_iff, String.ofList_eq_empty_iff]

theorem trimChars_eq_self {s : List Char} (h : ∀ c ∈ s, isWhitespace c = false) : trimChars s = s :=
  trimChars_eq (fun c hc => h c (List.mem_of_mem_head? hc)) fun c hc => h c (List.mem_of_getLast? hc)

/-- A text without white space is its own trimming. -/
theorem trim_eq_self {s : String} (h : ∀ c ∈ s.toList, isWhitespace c = false) : trim s = s := by
  rw [trim, trimChars_eq_self h, String.ofList_toList]

/-- A text with a character that is no white space is not blank. -/
theorem trim_ne_empty {s : String} {c : Char} (hc : c ∈ s.toList) (hspace : isWhitespace c = false) : trim s ≠ "" := by
  intro h
  rw [trim_eq_empty_iff.mp h c hc] at hspace
  cases hspace

/-- White space at the end is trimmed. -/
theorem trimChars_append {s spaces : List Char} (h : ∀ c ∈ spaces, isWhitespace c = true) :
    trimChars (s ++ spaces) = trimChars s := by
  rw [trimChars, trimChars, List.dropWhile_append]
  cases hfront : s.dropWhile isWhitespace with
  | nil =>
    rw [List.isEmpty_nil, if_pos rfl, List.dropWhile_eq_nil_iff.mpr h]
  | cons c rest =>
    rw [if_neg (by simp), List.reverse_append, List.dropWhile_append_of_pos fun c hc => h c (List.mem_reverse.mp hc)]

theorem trim_append {s spaces : String} (h : ∀ c ∈ spaces.toList, isWhitespace c = true) : trim (s ++ spaces) = trim s := by
  rw [trim, String.toList_append, trimChars_append h, trim]

theorem nonBlank_eq_nil_iff {pieces : List String} :
    nonBlank pieces = [] ↔ ∀ piece ∈ pieces, ∀ c ∈ piece.toList, isWhitespace c = true := by
  simp only [nonBlank, List.filter_eq_nil_iff, List.mem_map, forall_exists_index, and_imp, forall_apply_eq_imp_iff₂,
    decide_eq_true_eq, not_not, trim_eq_empty_iff]

/-! ## Pieces -/

theorem mem_intercalate {α : Type} {sep : List α} {c : α} : ∀ {ls : List (List α)}, c ∈ sep.intercalate ls →
    c ∈ sep ∨ ∃ l ∈ ls, c ∈ l
  | [], h => by cases h
  | [l], h => by
    rw [List.intercalate_singleton] at h
    exact .inr ⟨l, List.mem_singleton_self l, h⟩
  | l :: l' :: ls, h => by
    rw [List.intercalate_cons_cons] at h
    rcases List.mem_append.mp h with h | h
    · rcases List.mem_append.mp h with h | h
      · exact .inr ⟨l, List.mem_cons_self, h⟩
      · exact .inl h
    · rcases mem_intercalate h with hsep | ⟨m, hm, hc⟩
      · exact .inl hsep
      · exact .inr ⟨m, List.mem_cons_of_mem l hm, hc⟩

theorem mem_intercalate_of_mem {α : Type} {sep : List α} {c : α} : ∀ {ls : List (List α)} {l : List α}, l ∈ ls → c ∈ l →
    c ∈ sep.intercalate ls
  | [_], _, hl, hc => by
    rw [List.mem_singleton.mp hl] at hc
    rwa [List.intercalate_singleton]
  | l :: l' :: ls, m, hm, hc => by
    rw [List.intercalate_cons_cons]
    rcases List.mem_cons.mp hm with rfl | hm
    · exact List.mem_append_left _ (List.mem_append_left _ hc)
    · exact List.mem_append_right _ (mem_intercalate_of_mem hm hc)

/-- A character of one of the texts is in the joined text. -/
theorem mem_intercalate_text {sep text : String} {texts : List String} {c : Char} (htext : text ∈ texts)
    (hc : c ∈ text.toList) : c ∈ (sep.intercalate texts).toList := by
  rw [String.toList_intercalate]
  exact mem_intercalate_of_mem (List.mem_map_of_mem htext) hc

theorem nonBlank_splitText_ne_nil {x c : Char} {s : String} (hc : c ∈ s.toList) (hx : c ≠ x)
    (hspace : isWhitespace c = false) : nonBlank (splitText x s) ≠ [] := by
  intro h
  rcases mem_splitText hc with hcx | ⟨piece, hp, hcp⟩
  · exact hx hcx
  · rw [nonBlank_eq_nil_iff.mp h piece hp c hcp] at hspace
    cases hspace

theorem stripNewline_subset {line : List Char} {c : Char} (h : c ∈ stripNewline line) : c ∈ line := by
  rw [stripNewline] at h
  split at h
  · split at h
    · exact List.mem_of_mem_dropLast (List.mem_of_mem_dropLast h)
    · exact List.mem_of_mem_dropLast h
  · exact h

theorem mem_dropLast_of_ne {line : List Char} {c last : Char} (hlast : line.getLast? = some last) (hc : c ∈ line)
    (hne : c ≠ last) : c ∈ line.dropLast := by
  obtain ⟨front, rfl⟩ := List.getLast?_eq_some_iff.mp hlast
  rw [List.dropLast_concat]
  rcases List.mem_append.mp hc with hc | hc
  · exact hc
  · exact absurd (List.mem_singleton.mp hc) hne

theorem mem_stripNewline {line : List Char} {c : Char} (hc : c ∈ line) (hspace : isWhitespace c = false) :
    c ∈ stripNewline line := by
  have hnewline : c ≠ '\n' := by rintro rfl; cases hspace
  have hreturn : c ≠ '\r' := by rintro rfl; cases hspace
  rw [stripNewline]
  split
  · next hlast =>
    have hfront := mem_dropLast_of_ne hlast hc hnewline
    split
    · next hlast' => exact mem_dropLast_of_ne hlast' hfront hreturn
    · exact hfront
  · exact hc

theorem endedPieces_eq_singleton {α : Type} [DecidableEq α] {x : α} : ∀ {as : List α}, as ≠ [] → x ∉ as →
    endedPieces x as = [as]
  | [a], _, hx => by
    have ha : a ≠ x := fun h => hx (h ▸ List.mem_cons_self)
    rw [endedPieces, if_neg ha, endedPieces_nil]
  | a :: b :: as, _, hx => by
    have ha : a ≠ x := fun h => hx (h ▸ List.mem_cons_self)
    have hrest : endedPieces x (b :: as) = [b :: as] :=
      endedPieces_eq_singleton (List.cons_ne_nil b as) fun h => hx (List.mem_cons_of_mem a h)
    rw [endedPieces, if_neg ha, hrest]

/-- A text without newlines is its one line. -/
theorem textLines_eq_singleton {s : String} (hne : s ≠ "") (h : '\n' ∉ s.toList) : textLines s = [s] := by
  have hlast : s.toList.getLast? ≠ some '\n' := fun hlast => h (List.mem_of_getLast? hlast)
  rw [textLines, endedPieces_eq_singleton (fun hnil => hne (String.toList_eq_nil_iff.mp hnil)) h, List.map_singleton,
    stripNewline, if_neg hlast, String.ofList_toList]

/-- A text whose lines are all blank has only white space. -/
theorem nonBlank_textLines {s : String} : nonBlank (textLines s) = [] ↔ trim s = "" := by
  rw [nonBlank_eq_nil_iff, trim_eq_empty_iff]
  constructor
  · intro h c hc
    rw [← flatten_endedPieces (x := '\n') s.toList] at hc
    obtain ⟨line, hline, hcline⟩ := List.mem_flatten.mp hc
    by_contra hspace
    have hstrip := mem_stripNewline hcline (Bool.eq_false_iff.mpr hspace)
    exact hspace (h _ (List.mem_map_of_mem hline) c (by rwa [String.toList_ofList]))
  · intro h piece hpiece c hc
    obtain ⟨line, hline, rfl⟩ := List.mem_map.mp hpiece
    rw [String.toList_ofList] at hc
    refine h c ?_
    rw [← flatten_endedPieces (x := '\n') s.toList]
    exact List.mem_flatten.mpr ⟨line, hline, stripNewline_subset hc⟩

/-- A joined text is blank when all its texts and its separator are. -/
theorem trim_intercalate_eq_empty_iff {sep : String} {texts : List String} (hsep : trim sep = "") :
    trim (sep.intercalate texts) = "" ↔ ∀ text ∈ texts, trim text = "" := by
  constructor
  · intro h text htext
    rw [trim_eq_empty_iff] at h ⊢
    exact fun c hc => h c (mem_intercalate_text htext hc)
  · intro h
    rw [trim_eq_empty_iff]
    intro c hc
    rw [String.toList_intercalate] at hc
    rcases mem_intercalate hc with hc | ⟨l, hl, hc⟩
    · exact trim_eq_empty_iff.mp hsep c hc
    · obtain ⟨text, htext, rfl⟩ := List.mem_map.mp hl
      exact trim_eq_empty_iff.mp (h text htext) c hc

end Firestone.Lib
