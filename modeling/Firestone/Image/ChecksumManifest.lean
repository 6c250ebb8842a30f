import Firestone.Image.Generations
import Firestone.Lib.Text
import Mathlib.Data.List.Dedup

/-!
# Checksum manifests

The digest of an image is looked up in the manifest that its publisher serves, which lists files in the lines of
`sha256sum` or of BSD's `sha256`.

* `parseChecksumManifest` — the digest that a manifest gives for a file.
* `ManifestEntry` — an entry, with the line that it is written as.
* `parseManifestLine_line` — a line reads back as its entry, for the algorithm of the entry and for no other.
* `parseChecksumManifest_exact` — a file has the digest on which all of its entries agree.

Texts are lists of characters. The source cuts lines by bytes; what it cuts off is ASCII whenever it goes on.
-/

namespace Firestone.Image.Manifests

open Firestone.Lib Firestone.Image.Generations

/-! ## Lines -/

/-- A line feed ends a line, together with a carriage return before it. -/
def linesFrom (line : List Char) : List Char → List (List Char)
  | [] => if line = [] then [] else [line]
  | c :: rest =>
    if c = '\n' then (if line.getLast? = some '\r' then line.dropLast else line) :: linesFrom [] rest
    else linesFrom (line ++ [c]) rest

def lines (s : List Char) : List (List Char) := linesFrom [] s

def digestLength : ChecksumAlgorithm → Nat
  | .sha256 => 64
  | .sha512 => 128

def algorithmName : ChecksumAlgorithm → List Char
  | .sha256 => "SHA256".toList
  | .sha512 => "SHA512".toList

def isHexDigit (c : Char) : Bool := c.isDigit || ('a' ≤ c && c ≤ 'f') || ('A' ≤ c && c ≤ 'F')

def isHex (s : List Char) (length : Nat) : Bool := s.length = length && s.all isHexDigit

def isAsciiWhitespace (c : Char) : Bool := c = ' ' || c = '\t' || c = '\n' || c = '\x0c' || c = '\r'

def stripStar : List Char → List Char
  | '*' :: name => name
  | name => name

/-- A digest, white space, and a file name after an optional star. -/
def parseGnuLine (line : List Char) (algorithm : ChecksumAlgorithm) : Option (List Char × List Char) :=
  let candidate := line.take (digestLength algorithm)
  let rest := line.drop (digestLength algorithm)
  if isHex candidate (digestLength algorithm) && rest.head?.any isAsciiWhitespace then
    let filename := stripStar (rest.dropWhile isWhitespace)
    if filename ≠ [] then some (filename, candidate.map asciiLower) else none
  else none

/-- The algorithm, a file name in parentheses, and a digest after an equals sign. -/
def parseBsdLine (line : List Char) (algorithm : ChecksumAlgorithm) : Option (List Char × List Char) :=
  let label := algorithmName algorithm
  if (line.take label.length).map asciiLower ≠ label.map asciiLower then none
  else match (line.drop label.length).dropWhile isWhitespace with
    | '(' :: inside =>
      (rsplitOnceChar ')' (String.ofList inside)).bind fun x =>
        match x.2.toList.dropWhile isWhitespace with
        | '=' :: digest =>
          if isHex (trimChars digest) (digestLength algorithm) then
            some (x.1.toList, (trimChars digest).map asciiLower)
          else none
        | _ => none
    | _ => none

def trimEndCr (line : List Char) : List Char := (line.reverse.dropWhile (· = '\r')).reverse

def parseManifestLine (line : List Char) (algorithm : ChecksumAlgorithm) : Option (List Char × List Char) :=
  let line := trimChars (trimEndCr line)
  (parseGnuLine line algorithm).or (parseBsdLine line algorithm)

/-- A file name without one leading `./`. -/
def stripDot : List Char → List Char
  | '.' :: '/' :: name => name
  | name => name

/-- What the digests that were found for a file come to. -/
def agreed (filename : List Char) (found : List (List Char)) : Res (List Char) :=
  let filename := String.ofList filename
  match found.dedup with
  | [] => .error ((FirestoneError.new .checksum s!"checksum manifest has no entry for '{filename}'").withHint
      "check that checksum_url and image URL name the same release file")
  | [digest] => .ok digest
  | _ => .error ((FirestoneError.new .checksum s!"checksum manifest has conflicting entries for '{filename}'").withHint
      "use an unambiguous checksum manifest")

def parseChecksumManifest (manifest : List Char) (algorithm : ChecksumAlgorithm) (filename : List Char) : Res (List Char) :=
  agreed filename <| (lines manifest).filterMap fun line =>
    (parseManifestLine line algorithm).bind fun x => if stripDot x.1 = filename then some x.2 else none

/-! ## Entries -/

inductive LineStyle
  | gnuText | gnuBinary | bsd
  deriving DecidableEq, Repr

structure ManifestEntry where
  algorithm : ChecksumAlgorithm
  name : List Char
  digest : List Char
  style : LineStyle
  crlf : Bool
  oneLine : '\n' ∉ name
  begins : ∃ c rest, name = c :: rest ∧ isWhitespace c = false ∧ c ≠ '*'
  ends : ∃ c, name.getLast? = some c ∧ isWhitespace c = false
  hex : isHex digest (digestLength algorithm) = true

namespace ManifestEntry

variable (e : ManifestEntry)

def line : List Char :=
  match e.style with
  | .gnuText => e.digest ++ ' ' :: ' ' :: e.name
  | .gnuBinary => e.digest ++ ' ' :: '*' :: e.name
  | .bsd => algorithmName e.algorithm ++ ' ' :: '(' :: (e.name ++ ')' :: ' ' :: '=' :: ' ' :: e.digest)

def ending : List Char := if e.crlf then ['\r', '\n'] else ['\n']

/-- The entry gives a digest of this algorithm for this file. -/
def isFor (algorithm : ChecksumAlgorithm) (filename : List Char) : Bool :=
  e.algorithm = algorithm && stripDot e.name = filename

end ManifestEntry

def render (entries : List ManifestEntry) : List Char := entries.flatMap fun e => e.line ++ e.ending

/-! ## Characters -/

theorem toNat_of_isHexDigit {c : Char} (h : isHexDigit c = true) :
    (48 ≤ c.toNat ∧ c.toNat ≤ 57) ∨ (97 ≤ c.toNat ∧ c.toNat ≤ 102) ∨ (65 ≤ c.toNat ∧ c.toNat ≤ 70) := by
  simp only [isHexDigit, Char.isDigit, Bool.or_eq_true, Bool.and_eq_true, decide_eq_true_eq] at h
  rcases h with (⟨h, h'⟩ | ⟨h, h'⟩) | ⟨h, h'⟩
  · exact .inl ⟨h, h'⟩
  · exact .inr (.inl ⟨h, h'⟩)
  · exact .inr (.inr ⟨h, h'⟩)

theorem isWhitespace_of_isHexDigit {c : Char} (h : isHexDigit c = true) : isWhitespace c = false := by
  have hrange := toNat_of_isHexDigit h
  simp only [isWhitespace, Bool.or_eq_false_iff, Bool.and_eq_false_iff, decide_eq_false_iff_not, beq_eq_false_iff_ne]
  omega

/-- A digest has no character outside the digits. -/
theorem ne_of_isHexDigit {c x : Char} (h : isHexDigit c = true) (hx : isHexDigit x = false) : c ≠ x := by
  rintro rfl
  rw [h] at hx
  cases hx

theorem isHex_iff {s : List Char} {n : Nat} : isHex s n = true ↔ s.length = n ∧ ∀ c ∈ s, isHexDigit c = true := by
  simp [isHex]

theorem trimEndCr_eq {s : List Char} (h : s.getLast? ≠ some '\r') : trimEndCr s = s := by
  unfold trimEndCr
  cases hs : s.reverse with
  | nil => rw [List.dropWhile_nil, ← hs, List.reverse_reverse]
  | cons c t =>
    have hc : s.getLast? = some c := by
      rw [← List.reverse_reverse s, List.getLast?_reverse, hs]
      rfl
    have hne : c ≠ '\r' := fun he => h (he ▸ hc)
    rw [List.dropWhile_cons_of_neg (by simpa using hne), ← hs, List.reverse_reverse]

/-! ## A line reads back -/

namespace ManifestEntry

variable {e : ManifestEntry}

theorem digest_cons : ∃ c rest, e.digest = c :: rest ∧ isHexDigit c = true := by
  obtain ⟨hlen, hall⟩ := isHex_iff.mp e.hex
  cases hd : e.digest with
  | nil =>
    rw [hd] at hlen
    cases ha : e.algorithm <;> rw [ha] at hlen <;> cases hlen
  | cons c rest => exact ⟨c, rest, rfl, hall c (hd ▸ List.mem_cons_self)⟩

theorem digest_getLast : ∃ c, e.digest.getLast? = some c ∧ isHexDigit c = true := by
  obtain ⟨c, rest, hd, _⟩ := digest_cons (e := e)
  have hne : e.digest ≠ [] := by simp [hd]
  exact ⟨e.digest.getLast hne, List.getLast?_eq_some_getLast hne, (isHex_iff.mp e.hex).2 _ (List.getLast_mem hne)⟩

theorem line_head : ∃ c rest, e.line = c :: rest ∧ isWhitespace c = false := by
  obtain ⟨c, rest, hd, hc⟩ := digest_cons (e := e)
  have hw := isWhitespace_of_isHexDigit hc
  unfold line
  cases e.style with
  | gnuText => exact ⟨c, rest ++ _, by rw [hd]; rfl, hw⟩
  | gnuBinary => exact ⟨c, rest ++ _, by rw [hd]; rfl, hw⟩
  | bsd => cases e.algorithm <;> exact ⟨'S', _, rfl, by decide⟩

theorem line_last : ∃ c, e.line.getLast? = some c ∧ isWhitespace c = false := by
  obtain ⟨c, hname, hc⟩ := e.ends
  obtain ⟨d, hdigest, hd⟩ := digest_getLast (e := e)
  unfold line
  cases e.style with
  | gnuText =>
    refine ⟨c, ?_, hc⟩
    simp only [List.getLast?_append, List.getLast?_cons, hname]
    rfl
  | gnuBinary =>
    refine ⟨c, ?_, hc⟩
    simp only [List.getLast?_append, List.getLast?_cons, hname]
    rfl
  | bsd =>
    refine ⟨d, ?_, isWhitespace_of_isHexDigit hd⟩
    simp only [List.getLast?_append, List.getLast?_cons, hdigest]
    rfl

/-- Nothing is trimmed off a line. -/
theorem trim_line : trimChars (trimEndCr e.line) = e.line := by
  obtain ⟨c, rest, hhead, hc⟩ := line_head (e := e)
  obtain ⟨d, hlast, hd⟩ := line_last (e := e)
  rw [trimEndCr_eq]
  · refine trimChars_eq (fun x hx => ?_) fun x hx => ?_
    · rw [hhead] at hx
      cases hx
      exact hc
    · rw [hlast] at hx
      cases hx
      exact hd
  · rw [hlast]
    rintro h
    cases h
    revert hd
    decide

theorem stripStar_name : stripStar e.name = e.name := by
  obtain ⟨c, rest, hname, _, hstar⟩ := e.begins
  rw [hname, stripStar]
  rintro _ h
  cases h
  exact hstar rfl

theorem dropWhile_name : e.name.dropWhile isWhitespace = e.name := by
  obtain ⟨c, rest, hname, hc, _⟩ := e.begins
  rw [hname]
  exact List.dropWhile_cons_of_neg (by rw [hc]; exact Bool.false_ne_true)

end ManifestEntry

theorem asciiLower_of_isHexDigit {c : Char} (h : isHexDigit c = true) : asciiLower c ≠ 's' := by
  have hrange := toNat_of_isHexDigit h
  rw [← Char.ofNat_toNat c]
  rcases hrange with ⟨hlow, hhigh⟩ | ⟨hlow, hhigh⟩ | ⟨hlow, hhigh⟩
  · interval_cases c.toNat <;> decide
  · interval_cases c.toNat <;> decide
  · interval_cases c.toNat <;> decide

/-- A line that starts with a digit is not in the style of BSD. -/
theorem parseBsdLine_of_hex {c : Char} {rest : List Char} (h : isHexDigit c = true) (algorithm : ChecksumAlgorithm) :
    parseBsdLine (c :: rest) algorithm = none := by
  have hne : ((c :: rest).take (algorithmName algorithm).length).map asciiLower ≠ (algorithmName algorithm).map asciiLower := by
    intro heq
    cases algorithm <;> exact asciiLower_of_isHexDigit h (List.cons.inj heq).1
  rw [parseBsdLine, if_pos hne]

/-- A digest of another length is not followed by white space where it should be. -/
theorem parseGnuLine_of_length {digest rest : List Char} {algorithm : ChecksumAlgorithm}
    (hhex : ∀ c ∈ digest, isHexDigit c = true) (hlen : digest.length ≠ digestLength algorithm) :
    parseGnuLine (digest ++ ' ' :: rest) algorithm = none := by
  rw [parseGnuLine, if_neg]
  rw [Bool.and_eq_true, not_and]
  intro hcandidate
  obtain ⟨hn, hall⟩ := isHex_iff.mp hcandidate
  by_cases hlt : digest.length < digestLength algorithm
  · -- the blank is among the digits
    obtain ⟨k, hk⟩ : ∃ k, digestLength algorithm = digest.length + (k + 1) := ⟨digestLength algorithm - digest.length - 1, by omega⟩
    have hblank : ' ' ∈ (digest ++ ' ' :: rest).take (digestLength algorithm) := by
      rw [hk, List.take_length_add_append, List.take_succ_cons]
      exact List.mem_append_right _ List.mem_cons_self
    exact absurd (hall _ hblank) (by decide)
  · -- a digit stands where the blank should be
    have hdrop : (digest ++ ' ' :: rest).drop (digestLength algorithm) =
        digest.drop (digestLength algorithm) ++ ' ' :: rest := List.drop_append_of_le_length (by omega)
    rw [hdrop]
    cases hd : digest.drop (digestLength algorithm) with
    | nil =>
      have := congrArg List.length hd
      rw [List.length_drop, List.length_nil] at this
      omega
    | cons c tail =>
      have hc : isHexDigit c = true := hhex c (List.mem_of_mem_drop (hd ▸ List.mem_cons_self))
      have hnot : isAsciiWhitespace c = false := by
        simp only [isAsciiWhitespace, Bool.or_eq_false_iff, decide_eq_false_iff_not]
        exact ⟨⟨⟨⟨ne_of_isHexDigit hc (by decide), ne_of_isHexDigit hc (by decide)⟩, ne_of_isHexDigit hc (by decide)⟩,
          ne_of_isHexDigit hc (by decide)⟩, ne_of_isHexDigit hc (by decide)⟩
      rw [List.cons_append, List.head?_cons, Option.any_some, hnot]
      exact Bool.false_ne_true

/-- A digest of the right length, a blank and a name. -/
theorem parseGnuLine_eq {digest rest name : List Char} {algorithm : ChecksumAlgorithm}
    (hhex : isHex digest (digestLength algorithm) = true) (hname : stripStar (rest.dropWhile isWhitespace) = name)
    (hne : name ≠ []) : parseGnuLine (digest ++ ' ' :: rest) algorithm = some (name, digest.map asciiLower) := by
  have hlen := (isHex_iff.mp hhex).1
  have htake : (digest ++ ' ' :: rest).take (digestLength algorithm) = digest := List.take_left' hlen
  have hdrop : (digest ++ ' ' :: rest).drop (digestLength algorithm) = ' ' :: rest := List.drop_left' hlen
  have hblank : (' ' :: rest).dropWhile isWhitespace = rest.dropWhile isWhitespace :=
    List.dropWhile_cons_of_pos (by decide)
  simp only [parseGnuLine, htake, hdrop, hhex, hblank, hname]
  rw [if_pos (by rfl), if_pos hne]

/-- A line in the style of BSD starts with no digit. -/
theorem parseGnuLine_of_label {algorithm algorithm' : ChecksumAlgorithm} {rest : List Char} :
    parseGnuLine (algorithmName algorithm' ++ rest) algorithm = none := by
  rw [parseGnuLine, if_neg]
  rw [Bool.and_eq_true, not_and]
  intro hcandidate
  have hS : 'S' ∈ (algorithmName algorithm' ++ rest).take (digestLength algorithm) := by
    cases algorithm <;> cases algorithm' <;> exact List.mem_cons_self
  exact absurd ((isHex_iff.mp hcandidate).2 _ hS) (by decide)

theorem parseBsdLine_eq {name digest : List Char} {algorithm algorithm' : ChecksumAlgorithm}
    (hhex : isHex digest (digestLength algorithm') = true) :
    parseBsdLine (algorithmName algorithm' ++ ' ' :: '(' :: (name ++ ')' :: ' ' :: '=' :: ' ' :: digest)) algorithm =
      if algorithm' = algorithm then some (name, digest.map asciiLower) else none := by
  obtain ⟨hlen, hall⟩ := isHex_iff.mp hhex
  have hlabel : (algorithmName algorithm').length = (algorithmName algorithm).length := by
    cases algorithm <;> cases algorithm' <;> decide
  have htake : ∀ rest, (algorithmName algorithm' ++ rest).take (algorithmName algorithm).length = algorithmName algorithm' :=
    fun rest => List.take_left' hlabel
  have hdrop : ∀ rest, (algorithmName algorithm' ++ rest).drop (algorithmName algorithm).length = rest :=
    fun rest => List.drop_left' hlabel
  by_cases heq : algorithm' = algorithm
  · subst heq
    have hclose : ')' ∉ ' ' :: '=' :: ' ' :: digest := by
      simp only [List.mem_cons, not_or]
      exact ⟨by decide, by decide, by decide, fun h => absurd (hall _ h) (by decide)⟩
    have hdigest : trimChars (' ' :: digest) = digest := by
      have hblank : trimChars (' ' :: digest) = trimChars digest := by
        rw [trimChars, List.dropWhile_cons_of_pos (by decide)]
        rfl
      rw [hblank]
      refine trimChars_eq (fun c hc => ?_) fun c hc => ?_
      · exact isWhitespace_of_isHexDigit (hall c (List.mem_of_mem_head? hc))
      · exact isWhitespace_of_isHexDigit (hall c (List.mem_of_mem_getLast? hc))
    have hopen : (' ' :: '(' :: (name ++ ')' :: ' ' :: '=' :: ' ' :: digest)).dropWhile isWhitespace =
        '(' :: (name ++ ')' :: ' ' :: '=' :: ' ' :: digest) := by
      rw [List.dropWhile_cons_of_pos (by decide), List.dropWhile_cons_of_neg (by decide)]
    have hequals : (' ' :: '=' :: ' ' :: digest).dropWhile isWhitespace = '=' :: ' ' :: digest := by
      rw [List.dropWhile_cons_of_pos (by decide), List.dropWhile_cons_of_neg (by decide)]
    simp only [parseBsdLine, htake, hdrop, hopen, rsplitOnceChar_append hclose, Option.bind_some, String.toList_ofList,
      hequals, hdigest, hhex]
    simp
  · have hne : (algorithmName algorithm').map asciiLower ≠ (algorithmName algorithm).map asciiLower := by
      cases algorithm <;> cases algorithm' <;> first | exact absurd rfl heq | decide
    rw [parseBsdLine, htake, if_pos hne, if_neg heq]

/-- A line is read as its entry when the algorithm is asked for, and as nothing otherwise. -/
theorem parseManifestLine_line (e : ManifestEntry) (algorithm : ChecksumAlgorithm) :
    parseManifestLine e.line algorithm =
      if e.algorithm = algorithm then some (e.name, e.digest.map asciiLower) else none := by
  obtain ⟨c, rest, hdigest, hc⟩ := e.digest_cons
  obtain ⟨hlen, hall⟩ := isHex_iff.mp e.hex
  have hname : e.name ≠ [] := by
    obtain ⟨c, rest, h, _⟩ := e.begins
    rw [h]
    exact List.cons_ne_nil _ _
  have hgnu : ∀ tail, stripStar (tail.dropWhile isWhitespace) = e.name →
      (parseGnuLine (e.digest ++ ' ' :: tail) algorithm).or (parseBsdLine (e.digest ++ ' ' :: tail) algorithm) =
        if e.algorithm = algorithm then some (e.name, e.digest.map asciiLower) else none := by
    intro tail htail
    by_cases heq : e.algorithm = algorithm
    · rw [parseGnuLine_eq (heq ▸ e.hex) htail hname, if_pos heq]
      rfl
    · have hne : e.digest.length ≠ digestLength algorithm := by
        rw [hlen]
        intro h
        refine heq ?_
        cases ha : e.algorithm <;> cases algorithm <;> rw [ha] at h <;> first | rfl | cases h
      have hbsd : parseBsdLine (e.digest ++ ' ' :: tail) algorithm = none := by
        rw [hdigest]
        exact parseBsdLine_of_hex hc algorithm
      rw [parseGnuLine_of_length hall hne, hbsd, if_neg heq]
      rfl
  simp only [parseManifestLine, e.trim_line]
  unfold ManifestEntry.line
  cases e.style with
  | gnuText =>
    refine hgnu (' ' :: e.name) ?_
    rw [List.dropWhile_cons_of_pos (by decide), e.dropWhile_name, e.stripStar_name]
  | gnuBinary =>
    refine hgnu ('*' :: e.name) ?_
    rw [List.dropWhile_cons_of_neg (by decide)]
    rfl
  | bsd =>
    rw [parseGnuLine_of_label, parseBsdLine_eq e.hex]
    rfl

/-! ## A manifest reads back -/

theorem linesFrom_append {text : List Char} (htext : '\n' ∉ text) (line rest : List Char) :
    linesFrom line (text ++ '\n' :: rest) =
      (if (line ++ text).getLast? = some '\r' then (line ++ text).dropLast else line ++ text) :: linesFrom [] rest := by
  induction text generalizing line with
  | nil => rw [List.nil_append, List.append_nil, linesFrom, if_pos rfl]
  | cons c text ih =>
    have hc : c ≠ '\n' := fun h => htext (h ▸ List.mem_cons_self)
    rw [List.cons_append, linesFrom, if_neg hc, ih (fun h => htext (List.mem_cons_of_mem _ h)), List.append_assoc]
    rfl

namespace ManifestEntry

variable (e : ManifestEntry)

theorem newline_notMem_line : '\n' ∉ e.line := by
  have hdigest : '\n' ∉ e.digest := fun h => absurd ((isHex_iff.mp e.hex).2 _ h) (by decide)
  have hname := e.oneLine
  have hlabel : '\n' ∉ algorithmName e.algorithm := by cases e.algorithm <;> decide
  unfold line
  cases e.style with
  | gnuText => simp [hdigest, hname]
  | gnuBinary => simp [hdigest, hname]
  | bsd => simp [hdigest, hname, hlabel]

/-- Either ending is taken off again. -/
theorem linesFrom_line (rest : List Char) : linesFrom [] (e.line ++ e.ending ++ rest) = e.line :: linesFrom [] rest := by
  obtain ⟨c, hlast, hc⟩ := e.line_last
  have hnewline := e.newline_notMem_line
  cases hcrlf : e.crlf with
  | true =>
    have hcut : e.line ++ e.ending ++ rest = (e.line ++ ['\r']) ++ '\n' :: rest := by simp [ending, hcrlf]
    have hnotMem : '\n' ∉ e.line ++ ['\r'] := by simp [hnewline]
    rw [hcut, linesFrom_append hnotMem, List.nil_append, if_pos List.getLast?_concat, List.dropLast_concat]
  | false =>
    have hcut : e.line ++ e.ending ++ rest = e.line ++ '\n' :: rest := by simp [ending, hcrlf]
    have hreturn : e.line.getLast? ≠ some '\r' := by
      rw [hlast]
      intro h
      cases h
      revert hc
      decide
    rw [hcut, linesFrom_append hnewline, List.nil_append, if_neg hreturn]

end ManifestEntry

theorem lines_render (entries : List ManifestEntry) : lines (render entries) = entries.map ManifestEntry.line := by
  induction entries with
  | nil => rfl
  | cons e entries ih =>
    rw [lines, render, List.flatMap_cons, e.linesFrom_line, List.map_cons]
    exact congrArg _ ih

/-- The digests that a list of entries gives for a file. -/
def digestsFor (algorithm : ChecksumAlgorithm) (filename : List Char) (entries : List ManifestEntry) : List (List Char) :=
  (entries.filter (·.isFor algorithm filename)).map fun e => e.digest.map asciiLower

theorem parseChecksumManifest_render (entries : List ManifestEntry) (algorithm : ChecksumAlgorithm) (filename : List Char) :
    parseChecksumManifest (render entries) algorithm filename = agreed filename (digestsFor algorithm filename entries) := by
  rw [parseChecksumManifest, lines_render, digestsFor, List.filterMap_map]
  refine congrArg (agreed filename) ?_
  induction entries with
  | nil => rfl
  | cons e entries ih =>
    rw [List.filterMap_cons, Function.comp_apply, parseManifestLine_line, ih]
    by_cases halgorithm : e.algorithm = algorithm
    · by_cases hname : stripDot e.name = filename
      · have hfor : e.isFor algorithm filename = true := by simp [ManifestEntry.isFor, halgorithm, hname]
        rw [if_pos halgorithm, Option.bind_some, if_pos hname, List.filter_cons, if_pos hfor, List.map_cons]
      · have hfor : ¬ e.isFor algorithm filename = true := by simp [ManifestEntry.isFor, hname]
        rw [if_pos halgorithm, Option.bind_some, if_neg hname, List.filter_cons, if_neg hfor]
    · have hfor : ¬ e.isFor algorithm filename = true := by simp [ManifestEntry.isFor, halgorithm]
      rw [if_neg halgorithm, Option.bind_none, List.filter_cons, if_neg hfor]

theorem mem_digestsFor {algorithm : ChecksumAlgorithm} {filename digest : List Char} {entries : List ManifestEntry} :
    digest ∈ digestsFor algorithm filename entries ↔
      ∃ e ∈ entries, e.isFor algorithm filename = true ∧ e.digest.map asciiLower = digest := by
  simp only [digestsFor, List.mem_map, List.mem_filter, and_assoc]

section Agreed

variable {filename : List Char} {found : List (List Char)}

theorem agreed_eq_ok {digest : List Char} :
    agreed filename found = .ok digest ↔ digest ∈ found ∧ ∀ other ∈ found, other = digest := by
  constructor
  · intro h
    unfold agreed at h
    split at h
    · cases h
    · rename_i d hd
      cases h
      refine ⟨List.mem_dedup.mp (hd ▸ List.mem_cons_self), fun other hother => ?_⟩
      exact List.mem_singleton.mp (hd ▸ List.mem_dedup.mpr hother)
    · cases h
  · rintro ⟨hmem, hall⟩
    have hdedup : found.dedup = [digest] := by
      refine List.perm_singleton.mp ?_
      refine (List.perm_ext_iff_of_nodup (List.nodup_dedup found) (List.nodup_singleton digest)).mpr fun other => ?_
      rw [List.mem_dedup, List.mem_singleton]
      exact ⟨hall other, fun h => h ▸ hmem⟩
    rw [agreed, hdedup]

theorem agreed_error {error : FirestoneError} (h : agreed filename found = .error error) : error.kind = .checksum := by
  unfold agreed at h
  split at h
  · cases h
    rfl
  · cases h
  · cases h
    rfl

/-- The order in which the digests were found does not matter. -/
theorem agreed_perm {found' : List (List Char)} (h : found.Perm found') : agreed filename found = agreed filename found' := by
  have hdedup := h.dedup
  unfold agreed
  generalize found.dedup = l at hdedup
  generalize found'.dedup = l' at hdedup
  match l, l', hdedup with
  | [], _, hp => rw [List.nil_perm.mp hp]
  | [_], _, hp => rw [List.singleton_perm.mp hp]
  | _ :: _ :: _, l', hp =>
    have hlen := hp.length_eq
    match l', hlen with
    | _ :: _ :: _, _ => rfl

end Agreed

/-- A manifest gives a file the digest on which its entries of the algorithm agree, and an error when there is none. The
order of the lines and the other entries do not matter. -/
theorem parseChecksumManifest_exact (entries : List ManifestEntry) (algorithm : ChecksumAlgorithm) (filename : List Char) :
    (∀ digest, parseChecksumManifest (render entries) algorithm filename = .ok digest ↔
      (∃ e ∈ entries, e.isFor algorithm filename = true) ∧
      ∀ e ∈ entries, e.isFor algorithm filename = true → e.digest.map asciiLower = digest) ∧
    (∀ error, parseChecksumManifest (render entries) algorithm filename = .error error → error.kind = .checksum) ∧
    (∀ entries', entries.Perm entries' →
      parseChecksumManifest (render entries') algorithm filename = parseChecksumManifest (render entries) algorithm filename) ∧
    parseChecksumManifest (render entries) algorithm filename =
      parseChecksumManifest (render (entries.filter (·.isFor algorithm filename))) algorithm filename := by
  refine ⟨fun digest => ?_, fun error h => ?_, fun entries' hperm => ?_, ?_⟩
  · rw [parseChecksumManifest_render, agreed_eq_ok, mem_digestsFor]
    constructor
    · rintro ⟨⟨e, he, hfor, _⟩, hall⟩
      exact ⟨⟨e, he, hfor⟩, fun e' he' hfor' => hall _ (mem_digestsFor.mpr ⟨e', he', hfor', rfl⟩)⟩
    · rintro ⟨⟨e, he, hfor⟩, hall⟩
      refine ⟨⟨e, he, hfor, hall e he hfor⟩, fun other hother => ?_⟩
      obtain ⟨e', he', hfor', hd⟩ := mem_digestsFor.mp hother
      rw [← hd, hall e' he' hfor']
  · rw [parseChecksumManifest_render] at h
    exact agreed_error h
  · rw [parseChecksumManifest_render, parseChecksumManifest_render]
    exact agreed_perm ((hperm.symm.filter _).map _)
  · rw [parseChecksumManifest_render, parseChecksumManifest_render, digestsFor, digestsFor, List.filter_filter]
    simp only [Bool.and_self]

end Firestone.Image.Manifests
