import Firestone.Lib.Bytes
import Mathlib.Data.List.Infix
import Mathlib.Tactic.NthRewrite

/-!
# Multipart documents

Reading of a multipart document in the way of RFC 2046: a delimiter is a line break, two dashes and the boundary; what
follows it on its line is ignored, two more dashes end the document. A part is header fields, an empty line and a body.

* `breakOn` — a list around the first occurrence of a pattern; `breakOn_skip`, `breakOn_delimiter` and `breakOn_infix` say
  where that is.
* `readMultipart` — the bodies of the parts of a document.
* `readParts_encodeParts_iff` — the bodies of encoded parts are read back exactly when no line of one of them starts with
  the delimiter.
-/

namespace Firestone.Lib

/-! ## The first occurrence of a pattern -/

section breakOn

variable {α : Type} [DecidableEq α]

/-- What is before and after the first occurrence of a pattern. -/
@[grind =] def breakOn (d : List α) : List α → Option (List α × List α)
  | [] => if d = [] then some ([], []) else none
  | x :: l => if d.isPrefixOf (x :: l) then some ([], (x :: l).drop d.length) else (breakOn d l).map fun p => (x :: p.1, p.2)

variable {d : List α}

theorem breakOn_cons {x : α} {l : List α} (h : ¬ d <+: x :: l) :
    breakOn d (x :: l) = (breakOn d l).map fun p => (x :: p.1, p.2) := by
  rw [breakOn, if_neg]
  rw [List.isPrefixOf_iff_prefix]
  exact h

theorem breakOn_append (h : d ≠ []) (rest : List α) : breakOn d (d ++ rest) = some ([], rest) := by
  obtain ⟨x, l, rfl⟩ := List.exists_cons_of_ne_nil h
  rw [List.cons_append, breakOn, if_pos]
  · rw [← List.cons_append, List.drop_left]
  · rw [List.isPrefixOf_iff_prefix, ← List.cons_append]
    exact List.prefix_append _ _

/-- No occurrence starts in the first part of a list. -/
theorem breakOn_skip {rest : List α} : ∀ {skip : List α}, (∀ t, t ≠ [] → t <:+ skip → ¬ d <+: t ++ rest) →
    breakOn d (skip ++ rest) = (breakOn d rest).map fun p => (skip ++ p.1, p.2)
  | [], _ => by simp
  | x :: skip, h => by
    have hrest := breakOn_skip fun t ht hsuffix => h t ht (hsuffix.trans (List.suffix_cons x skip))
    have hno : ¬ d <+: x :: (skip ++ rest) := h _ (List.cons_ne_nil x skip) List.suffix_rfl
    rw [List.cons_append, breakOn_cons hno, hrest, Option.map_map]
    rfl

/-- A pattern whose first value is not repeated does not overlap itself, so it is found at its place. -/
theorem breakOn_delimiter {x : α} (hx : x ∉ d) (rest : List α) : ∀ {l : List α}, ¬ (x :: d) <:+: l →
    breakOn (x :: d) (l ++ (x :: d ++ rest)) = some (l, rest)
  | [], _ => breakOn_append (List.cons_ne_nil x d) rest
  | y :: l, h => by
    have hno : ¬ (x :: d) <+: y :: (l ++ (x :: d ++ rest)) := by
      intro hprefix
      rw [← List.cons_append] at hprefix
      rcases List.prefix_or_prefix_of_prefix hprefix (List.prefix_append _ _) with hleft | ⟨e, he⟩
      · exact h hleft.isInfix
      · -- the rest of the pattern would start with its first value
        nth_rewrite 1 [← he] at hprefix
        rw [List.prefix_append_right_inj] at hprefix
        rw [List.cons_append, List.cons.injEq] at he
        cases e with
        | nil =>
          rw [List.append_nil] at he
          refine h ?_
          rw [he.1, he.2]
        | cons z e =>
          rw [List.cons_append, List.cons_prefix_cons] at hprefix
          rw [← he.2, hprefix.1] at hx
          exact hx (List.mem_append_right _ List.mem_cons_self)
    have hrest := breakOn_delimiter hx rest fun hinfix => h (List.infix_cons hinfix)
    rw [List.cons_append, breakOn_cons hno, hrest]
    rfl

/-- The first of the occurrences in the first part of a list. -/
theorem breakOn_infix (more : List α) : ∀ {l : List α}, d <:+: l →
    ∃ a c, breakOn d (l ++ more) = some (a, c ++ more) ∧ l = a ++ d ++ c
  | [], h => by
    have hnil := List.infix_nil.mp h
    subst hnil
    refine ⟨[], [], ?_, rfl⟩
    cases more <;> rfl
  | y :: l, h => by
    by_cases hprefix : d <+: y :: l
    · obtain ⟨c, hc⟩ := hprefix
      refine ⟨[], c, ?_, hc.symm⟩
      rw [← hc, List.append_assoc]
      by_cases hd : d = []
      · subst hd
        cases hcm : c ++ more <;> simp [breakOn]
      · exact breakOn_append hd _
    · -- the pattern is no longer than the rest of the list
      have hinfix := (List.infix_cons_iff.mp h).resolve_left hprefix
      obtain ⟨a, c, hbreak, hl⟩ := breakOn_infix more hinfix
      have hno : ¬ d <+: y :: (l ++ more) := by
        rw [← List.cons_append]
        intro hd
        have hlen := hinfix.length_le
        refine hprefix (List.prefix_of_prefix_length_le hd (List.prefix_append _ _) ?_)
        rw [List.length_cons]
        omega
      refine ⟨y :: a, c, ?_, by rw [hl]; simp⟩
      rw [List.cons_append, breakOn_cons hno, hbreak]
      rfl

theorem length_lt_of_breakOn (hd : d ≠ []) : ∀ {l a c : List α}, breakOn d l = some (a, c) → c.length < l.length
  | [], a, c, h => by simp [breakOn, hd] at h
  | x :: l, a, c, h => by
    rw [breakOn] at h
    split at h
    · simp only [Option.some.injEq, Prod.mk.injEq] at h
      rw [← h.2, List.length_drop]
      have hpos := List.length_pos_iff.mpr hd
      simp only [List.length_cons]
      omega
    · obtain ⟨p, hp, hpair⟩ := Option.map_eq_some_iff.mp h
      simp only [Prod.mk.injEq] at hpair
      have hlt := length_lt_of_breakOn hd hp
      rw [← hpair.2, List.length_cons]
      omega

end breakOn

/-! ## Reading -/

def crlf : Bytes := [13, 10]

def dashes : Bytes := [45, 45]

/-- The end of the header fields. -/
def blankLine : Bytes := [13, 10, 13, 10]

def delimiter (boundary : Bytes) : Bytes := 13 :: 10 :: 45 :: 45 :: boundary

/-- The body of a part, from what follows the boundary on its line. A part without an empty line has none. -/
def partBody (piece : Bytes) : Bytes :=
  match breakOn crlf piece with
  | none => []
  | some (_, part) => match breakOn blankLine (crlf ++ part) with
    | none => []
    | some (_, body) => body

/-- The bodies of the parts, from what follows the first boundary. -/
@[grind =] def readParts (boundary rest : Bytes) : List Bytes :=
  if dashes.isPrefixOf rest then []
  else match hrest : breakOn (delimiter boundary) rest with
    | none => [partBody rest]
    | some (piece, after) =>
      have := length_lt_of_breakOn (List.cons_ne_nil _ _) hrest
      partBody piece :: readParts boundary after
termination_by rest.length

/-- The value of the boundary parameter, in quotes. -/
def declaredBoundary (fields : Bytes) : Option Bytes := do
  let (_, value) ← breakOn (bytes "boundary=\"") fields
  let (boundary, _) ← breakOn [34] value
  some boundary

/-- The bodies of the parts of a document at its declared boundary. The first delimiter may be the first line. -/
def readMultipart (document : Bytes) : Option (List Bytes) := do
  let (fields, body) ← breakOn blankLine document
  let boundary ← declaredBoundary fields
  let (_, rest) ← breakOn (delimiter boundary) (crlf ++ body)
  some (readParts boundary rest)

/-! ## Writing -/

/-- The parts of a document after the first boundary, and its end. -/
@[grind =] def encodeParts (boundary : Bytes) : List (Bytes × Bytes) → Bytes
  | [] => dashes ++ crlf
  | (fields, body) :: parts =>
    crlf ++ fields ++ (crlf ++ (crlf ++ body ++ (delimiter boundary ++ encodeParts boundary parts)))

/-- No line of the body starts with the delimiter. -/
def Clean (boundary body : Bytes) : Prop := ¬ delimiter boundary <:+: crlf ++ body

/-- Each line of the header fields starts with a letter, or at least with neither a line break nor a dash. -/
def fieldsOk (fields : Bytes) : Bool :=
  (crlf ++ fields).tails.all fun t => t.isEmpty || ((t ++ crlf).take 3 != [13, 10, 13] && (t ++ crlf).take 3 != [13, 10, 45])

section encode

variable {boundary fields : Bytes}

/-- What starts in the header fields is neither an empty line nor a delimiter. -/
theorem not_prefix_fields (hf : fieldsOk fields = true) {t : Bytes} (ht : t ≠ []) (hsuffix : t <:+ crlf ++ fields)
    (rest : Bytes) : ¬ blankLine <+: t ++ (crlf ++ rest) ∧ ¬ delimiter boundary <+: t ++ (crlf ++ rest) := by
  have hall := List.all_eq_true.mp hf t ((List.mem_tails t _).mpr hsuffix)
  simp only [Bool.or_eq_true, List.isEmpty_iff, Bool.and_eq_true, bne_iff_ne, ne_eq, ht, false_or] at hall
  have htake : (t ++ (crlf ++ rest)).take 3 = (t ++ crlf).take 3 := by
    rw [← List.append_assoc, List.take_append_of_le_length]
    have hpos := List.length_pos_iff.mpr ht
    rw [List.length_append, crlf]
    simp only [List.length_cons, List.length_nil]
    omega
  rw [← htake] at hall
  refine ⟨?_, ?_⟩
  · rintro ⟨more, hmore⟩
    exact hall.1 (by rw [← hmore]; rfl)
  · rintro ⟨more, hmore⟩
    exact hall.2 (by rw [← hmore]; rfl)

/-- The header fields end at the first empty line. -/
theorem breakOn_blankLine (hf : fieldsOk fields = true) (rest : Bytes) :
    breakOn blankLine (crlf ++ fields ++ (crlf ++ rest)) =
      (breakOn blankLine (crlf ++ rest)).map fun p => (crlf ++ fields ++ p.1, p.2) :=
  breakOn_skip fun _ ht hsuffix => (@not_prefix_fields [] fields hf _ ht hsuffix rest).1

/-- There is no delimiter in the header of a part. -/
theorem breakOn_fields (hf : fieldsOk fields = true) (rest : Bytes) :
    breakOn (delimiter boundary) (crlf ++ fields ++ (crlf ++ (crlf ++ rest))) =
      (breakOn (delimiter boundary) (crlf ++ rest)).map fun p => (crlf ++ fields ++ (crlf ++ p.1), p.2) := by
  have hline : breakOn (delimiter boundary) (crlf ++ (crlf ++ rest)) =
      (breakOn (delimiter boundary) (crlf ++ rest)).map fun p => (crlf ++ p.1, p.2) := by
    have hfirst : ¬ delimiter boundary <+: 13 :: 10 :: (crlf ++ rest) := by
      simp [delimiter, crlf, List.cons_prefix_cons]
    have hsecond : ¬ delimiter boundary <+: 10 :: (crlf ++ rest) := by
      simp [delimiter, List.cons_prefix_cons]
    have hlist : crlf ++ (crlf ++ rest) = 13 :: 10 :: (crlf ++ rest) := rfl
    rw [hlist, breakOn_cons hfirst, breakOn_cons hsecond, Option.map_map]
    rfl
  rw [breakOn_skip fun _ ht hsuffix => (not_prefix_fields hf ht hsuffix (crlf ++ rest)).2, hline, Option.map_map]
  rfl

theorem breakOn_crlf (rest : Bytes) : breakOn crlf (crlf ++ rest) = some ([], rest) :=
  breakOn_append (List.cons_ne_nil _ _) rest

/-- The body of a part is what follows the first empty line. -/
theorem partBody_fields (hf : fieldsOk fields = true) (body : Bytes) :
    partBody (crlf ++ fields ++ (crlf ++ (crlf ++ body))) = body := by
  have hblank : breakOn blankLine (crlf ++ (crlf ++ body)) = some ([], body) :=
    breakOn_append (List.cons_ne_nil _ _) body
  rw [partBody, List.append_assoc, breakOn_crlf]
  simp only
  rw [← List.append_assoc crlf, breakOn_blankLine hf, hblank]
  rfl

/-- A part that ends after its header fields has no body. -/
theorem partBody_fields_nil (hf : fieldsOk fields = true) : partBody (crlf ++ fields ++ (crlf ++ [])) = [] := by
  have hblank : breakOn blankLine (crlf ++ []) = none := rfl
  rw [partBody, List.append_assoc, breakOn_crlf]
  simp only
  rw [← List.append_assoc crlf, breakOn_blankLine hf, hblank]
  rfl

theorem readParts_cons {rest piece after : Bytes} (hrest : breakOn (delimiter boundary) (crlf ++ rest) = some (piece, after)) :
    readParts boundary (crlf ++ rest) = partBody piece :: readParts boundary after := by
  have hopen : dashes.isPrefixOf (crlf ++ rest) = false := rfl
  rw [readParts, hopen]
  simp only [Bool.false_eq_true, if_false]
  split
  · rename_i hnone
    rw [hrest] at hnone
    cases hnone
  · rename_i piece' after' hsome
    rw [hrest] at hsome
    cases hsome
    rfl

/-- A body with a delimiter is cut at the first one. -/
theorem partBody_cut (hf : fieldsOk fields = true) {body a c : Bytes} (h : crlf ++ body = a ++ delimiter boundary ++ c) :
    partBody (crlf ++ fields ++ (crlf ++ a)) ≠ body := by
  rw [crlf, delimiter, List.cons_append, List.cons_append, List.nil_append] at h
  match a, h with
  | [], h =>
    -- the delimiter takes the empty line before the body
    rw [partBody_fields_nil hf]
    simp only [List.nil_append, List.cons_append, List.cons.injEq, true_and] at h
    rw [h]
    nofun
  | [x], h =>
    simp only [List.cons_append, List.nil_append, List.cons.injEq] at h
    exact absurd h.2.1 (by decide)
  | x :: y :: a, h =>
    simp only [List.cons_append, List.cons.injEq] at h
    obtain ⟨rfl, rfl, rfl⟩ := h
    have hbody : partBody (crlf ++ fields ++ (crlf ++ 13 :: 10 :: a)) = a := partBody_fields hf a
    rw [hbody]
    intro heq
    have hlen := congrArg List.length heq
    simp only [List.length_append, List.length_cons] at hlen
    omega

/-- What is read of the first part: it is cut at the first delimiter, its own or an earlier one. -/
theorem readParts_part (hf : fieldsOk fields = true) {body rest a after : Bytes}
    (h : breakOn (delimiter boundary) (crlf ++ body ++ rest) = some (a, after)) :
    readParts boundary (crlf ++ fields ++ (crlf ++ (crlf ++ body ++ rest))) =
      partBody (crlf ++ fields ++ (crlf ++ a)) :: readParts boundary after := by
  have hbreak := @breakOn_fields boundary fields hf (body ++ rest)
  rw [← List.append_assoc crlf body rest, h] at hbreak
  rw [List.append_assoc crlf fields] at hbreak ⊢
  exact readParts_cons hbreak

/-- **Bodies are read back exactly when they are clean.** The boundary is on one line. -/
theorem readParts_encodeParts_iff (hboundary : 13 ∉ boundary) : ∀ {parts : List (Bytes × Bytes)},
    (∀ p ∈ parts, fieldsOk p.1 = true) →
    (readParts boundary (encodeParts boundary parts) = parts.map Prod.snd ↔ ∀ p ∈ parts, Clean boundary p.2)
  | [], _ => by
    rw [encodeParts, readParts]
    simp [dashes]
  | (fields, body) :: parts, hok => by
    have hfields := hok (fields, body) List.mem_cons_self
    have ih := readParts_encodeParts_iff hboundary fun p hp => hok p (List.mem_cons_of_mem _ hp)
    have hsingle : 13 ∉ 10 :: 45 :: 45 :: boundary := by simp [hboundary]
    rw [encodeParts, List.map_cons, List.forall_mem_cons]
    by_cases hclean : Clean boundary body
    · have hbreak : breakOn (delimiter boundary) (crlf ++ body ++ (delimiter boundary ++ encodeParts boundary parts)) =
          some (crlf ++ body, encodeParts boundary parts) := breakOn_delimiter hsingle _ hclean
      rw [readParts_part hfields hbreak, partBody_fields hfields, List.cons.injEq, ih]
      exact ⟨fun h => ⟨hclean, h.2⟩, fun h => ⟨rfl, h.2⟩⟩
    · obtain ⟨a, c, hbreak, hbody⟩ := breakOn_infix (delimiter boundary ++ encodeParts boundary parts)
        (Decidable.not_not.mp hclean)
      rw [readParts_part hfields hbreak, List.cons.injEq]
      exact ⟨fun h => absurd h.1 (partBody_cut hfields hbody), fun h => absurd h.1 hclean⟩

end encode

end Firestone.Lib
