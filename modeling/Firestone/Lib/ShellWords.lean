import Firestone.Lib.Text

/-!
# Command lines

What becomes of a line that OpenSSH gives to a shell: percent tokens are replaced, a POSIX shell splits the line into words,
and the `env` command takes assignments from the front of them.

* `percentExpand`, `percentExpand_double` — a doubled percent sign is one again.
* `splitStep`, `splitWords` — the words of a line. There are none when the line has an operator, an expansion, a pattern or
  a comment in it, or does not end in the shell's sense.
* `Spells` — a text that is read as part of a word: characters that stand for themselves, and text in single quotes.
* `splitWords_join` — such texts with spaces between them are read as their words.
* `envOperands` — assignments, and the command behind them.
-/

namespace Firestone.Lib

/-- Every `c` is replaced by a text. -/
def replaceChar (c : Char) (text : List Char) (s : List Char) : List Char := s.flatMap fun x => if x = c then text else [x]

theorem replaceChar_append {c : Char} {text s t : List Char} :
    replaceChar c text (s ++ t) = replaceChar c text s ++ replaceChar c text t := List.flatMap_append

/-! ## Percent tokens -/

/-- The tokens of a line are replaced; an unknown token is refused. -/
@[grind =] def percentExpand (tokens : Char → Option (List Char)) : List Char → Option (List Char)
  | [] => some []
  | ['%'] => none
  | '%' :: c :: rest =>
    if c = '%' then (percentExpand tokens rest).map ('%' :: ·)
    else (tokens c).bind fun text => (percentExpand tokens rest).map (text ++ ·)
  | c :: rest => (percentExpand tokens rest).map (c :: ·)

def doublePercents (s : List Char) : List Char := replaceChar '%' ['%', '%'] s

/-- Doubled percent signs become one. -/
theorem percentExpand_double_append (tokens : Char → Option (List Char)) : ∀ s rest : List Char,
    percentExpand tokens (doublePercents s ++ rest) = (percentExpand tokens rest).map (s ++ ·)
  | [], rest => by simp [doublePercents, replaceChar]
  | c :: s, rest => by
    have ih := percentExpand_double_append tokens s rest
    rw [doublePercents, replaceChar] at ih ⊢
    by_cases hc : c = '%'
    · subst hc
      rw [List.flatMap_cons, if_pos rfl, List.append_assoc, List.cons_append, List.cons_append, List.nil_append,
        percentExpand, if_pos rfl, ih, Option.map_map]
      rfl
    · rw [List.flatMap_cons, if_neg hc, List.append_assoc, List.singleton_append, percentExpand, ih, Option.map_map]
      · rfl
      · exact fun h => absurd h hc
      · exact fun _ _ h => absurd h hc

/-- A text with doubled percent signs is what it was. -/
theorem percentExpand_double (tokens : Char → Option (List Char)) (s : List Char) :
    percentExpand tokens (doublePercents s) = some s := by
  have h := percentExpand_double_append tokens s []
  rwa [List.append_nil, percentExpand, Option.map_some, List.append_nil] at h

theorem doublePercents_append {s t : List Char} : doublePercents (s ++ t) = doublePercents s ++ doublePercents t :=
  replaceChar_append

theorem doublePercents_join (texts : List (List Char)) :
    doublePercents ([' '].intercalate texts) = [' '].intercalate (texts.map doublePercents) := by
  induction texts with
  | nil => rfl
  | cons text texts ih =>
    cases texts with
    | nil => rw [List.map_singleton, List.intercalate_singleton, List.intercalate_singleton]
    | cons next texts =>
      rw [List.map_cons, List.map_cons, List.intercalate_cons_cons, List.intercalate_cons_cons, doublePercents_append,
        doublePercents_append, ih, List.map_cons]
      rfl

theorem mem_doublePercents {c : Char} {s : List Char} : c ∈ doublePercents s ↔ c ∈ s := by
  rw [doublePercents, replaceChar, List.mem_flatMap]
  constructor
  · rintro ⟨x, hx, hc⟩
    split at hc
    · rename_i h
      subst h
      have : c = '%' := by simpa using hc
      exact this ▸ hx
    · exact List.mem_singleton.mp hc ▸ hx
  · intro hc
    refine ⟨c, hc, ?_⟩
    split
    · rename_i h
      subst h
      exact List.mem_cons_self
    · exact List.mem_singleton_self c

/-! ## Words -/

/-- How the next character is read: not quoted, in quotes, or behind a backslash outside or inside of double quotes. -/
inductive QuoteMode
  | bare | single | double | bareEscape | doubleEscape
  deriving DecidableEq, Repr

/-- A shell that reads a line: the words that are complete, and the one it is in. -/
structure Splitting where
  mode : QuoteMode
  word : Option (List Char)
  words : List (List Char)
  deriving DecidableEq, Repr

def nul : Char := Char.ofNat 0

/-- Characters that mean something to a shell when they are not quoted, besides quotes and blanks. -/
def isShellSpecial (c : Char) : Bool := "|&;<>()$`*?[#~\n".toList.contains c || c = nul

/-- More characters in the word, or the first ones of a word. -/
def Splitting.push (s : Splitting) (mode : QuoteMode) (text : List Char) : Splitting :=
  { s with mode, word := some (s.word.getD [] ++ text) }

def splitStep (s : Splitting) (c : Char) : Option Splitting :=
  match s.mode with
  | .bare =>
    if c = ' ' ∨ c = '\t' then some ⟨.bare, none, s.words ++ s.word.toList⟩
    else if c = '\'' then some (s.push .single [])
    else if c = '"' then some (s.push .double [])
    else if c = '\\' then some { s with mode := .bareEscape }
    else if isShellSpecial c then none
    else some (s.push .bare [c])
  | .single =>
    if c = '\'' then some { s with mode := .bare }
    else if c = nul then none
    else some (s.push .single [c])
  | .double =>
    if c = '"' then some { s with mode := .bare }
    else if "$`".toList.contains c || c = nul then none
    else if c = '\\' then some { s with mode := .doubleEscape }
    else some (s.push .double [c])
  | .bareEscape =>
    if c = '\n' then some { s with mode := .bare }
    else if c = nul then none
    else some (s.push .bare [c])
  | .doubleEscape =>
    if "$`\"\\".toList.contains c then some (s.push .double [c])
    else if c = '\n' then some { s with mode := .double }
    else if c = nul then none
    else some (s.push .double ['\\', c])

/-- The words of a line; the line ends outside of quotes. -/
def splitWords (line : List Char) : Option (List (List Char)) :=
  (line.foldlM splitStep ⟨.bare, none, []⟩).bind fun s => if s.mode = .bare then some (s.words ++ s.word.toList) else none

/-- Characters that stand for themselves. -/
def isOrdinary (c : Char) : Bool := c ≠ ' ' && c ≠ '\t' && c ≠ '\'' && c ≠ '"' && c ≠ '\\' && !isShellSpecial c

theorem splitStep_ordinary {c : Char} (h : isOrdinary c = true) (word : Option (List Char)) (words : List (List Char)) :
    splitStep ⟨.bare, word, words⟩ c = some ⟨.bare, some (word.getD [] ++ [c]), words⟩ := by
  simp only [isOrdinary, Bool.and_eq_true, decide_eq_true_eq, Bool.not_eq_true'] at h
  obtain ⟨⟨⟨⟨⟨hspace, htab⟩, hsingle⟩, hdouble⟩, hback⟩, hspecial⟩ := h
  simp [splitStep, Splitting.push, hspace, htab, hsingle, hdouble, hback, hspecial]

/-- Text in single quotes, its own single quotes in double quotes between two such texts. -/
def quoteSingle (s : List Char) : List Char := '\'' :: (replaceChar '\'' ['\'', '"', '\'', '"', '\''] s ++ ['\''])

/-- Quotes and percent signs do not meet. -/
theorem doublePercents_quoteSingle : ∀ s : List Char, doublePercents (quoteSingle s) = quoteSingle (doublePercents s) := by
  have hcomm : ∀ s : List Char, doublePercents (replaceChar '\'' ['\'', '"', '\'', '"', '\''] s) =
      replaceChar '\'' ['\'', '"', '\'', '"', '\''] (doublePercents s) := by
    intro s
    rw [doublePercents, doublePercents, replaceChar, replaceChar, replaceChar, replaceChar, List.flatMap_assoc,
      List.flatMap_assoc]
    refine List.flatMap_congr fun c _ => ?_
    by_cases hquote : c = '\''
    · subst hquote
      rfl
    · by_cases hpercent : c = '%'
      · subst hpercent
        rfl
      · rw [if_neg hquote, if_neg hpercent, List.flatMap_singleton, List.flatMap_singleton, if_neg hquote,
          if_neg hpercent]
  intro s
  rw [quoteSingle, quoteSingle, ← List.singleton_append, doublePercents_append, doublePercents_append, hcomm]
  rfl

/-- In single quotes a text stands for itself, up to the last quote. -/
theorem foldlM_inSingle {s word : List Char} {words : List (List Char)} (h : nul ∉ s) :
    (replaceChar '\'' ['\'', '"', '\'', '"', '\''] s ++ ['\'']).foldlM splitStep ⟨.single, some word, words⟩ =
      some ⟨.bare, some (word ++ s), words⟩ := by
  induction s generalizing word with
  | nil =>
    rw [List.append_nil]
    rfl
  | cons c s ih =>
    rw [List.mem_cons, not_or] at h
    rw [List.append_cons word c s, ← ih h.2]
    by_cases hc : c = '\''
    · -- out of the quotes, a quote in double quotes, and in again
      subst hc
      have htext : replaceChar '\'' ['\'', '"', '\'', '"', '\''] ('\'' :: s) ++ ['\''] =
          ['\'', '"', '\'', '"', '\''] ++ (replaceChar '\'' ['\'', '"', '\'', '"', '\''] s ++ ['\'']) := rfl
      have hquote : ['\'', '"', '\'', '"', '\''].foldlM splitStep ⟨.single, some word, words⟩ =
          some ⟨.single, some (word ++ ['\'']), words⟩ := by
        simp [splitStep, Splitting.push, nul]
      rw [htext, List.foldlM_append, hquote]
      rfl
    · have htext : replaceChar '\'' ['\'', '"', '\'', '"', '\''] (c :: s) ++ ['\''] =
          c :: (replaceChar '\'' ['\'', '"', '\'', '"', '\''] s ++ ['\'']) := by simp [replaceChar, hc]
      have hstep : splitStep ⟨.single, some word, words⟩ c = some ⟨.single, some (word ++ [c]), words⟩ := by
        simp [splitStep, Splitting.push, hc, Ne.symm h.1]
      rw [htext, List.foldlM_cons, hstep]
      rfl

/-! ## Texts of words -/

/-- The shell reads the text as these characters of a word. -/
def Spells (text chars : List Char) : Prop := ∀ (word : Option (List Char)) (words : List (List Char)),
  text.foldlM splitStep ⟨.bare, word, words⟩ = some ⟨.bare, some (word.getD [] ++ chars), words⟩

theorem Spells.of_ordinary {s : List Char} (hs : s ≠ []) (h : ∀ c ∈ s, isOrdinary c = true) : Spells s s := by
  induction s with
  | nil => exact absurd rfl hs
  | cons c s ih =>
    obtain ⟨hc, hrest⟩ := List.forall_mem_cons.mp h
    intro word words
    rw [List.foldlM_cons, splitStep_ordinary hc]
    cases s with
    | nil => rfl
    | cons d s =>
      refine (ih (List.cons_ne_nil d s) hrest _ _).trans ?_
      rw [Option.getD_some, List.append_assoc, List.singleton_append]

theorem Spells.quoteSingle {s : List Char} (h : nul ∉ s) : Spells (quoteSingle s) s := by
  intro word words
  have hopen : splitStep ⟨.bare, word, words⟩ '\'' = some ⟨.single, some (word.getD []), words⟩ := by
    simp [splitStep, Splitting.push]
  rw [Lib.quoteSingle, List.foldlM_cons, hopen]
  exact foldlM_inSingle h

theorem Spells.append {t t' s s' : List Char} (h : Spells t s) (h' : Spells t' s') : Spells (t ++ t') (s ++ s') := by
  intro word words
  rw [List.foldlM_append, h]
  refine (h' _ _).trans ?_
  rw [Option.getD_some, List.append_assoc]

/-- Texts with a space between them are read as their words. -/
theorem splitWords_join {texts words : List (List Char)} (h : List.Forall₂ Spells texts words) :
    splitWords ([' '].intercalate texts) = some words := by
  -- the words of a line behind those that are complete
  have hall : ∀ done : List (List Char), ∃ word complete, ([' '].intercalate texts).foldlM splitStep ⟨.bare, none, done⟩ =
      some ⟨.bare, word, complete⟩ ∧ complete ++ word.toList = done ++ words := by
    induction h with
    | nil => exact fun done => ⟨none, done, rfl, rfl⟩
    | @cons text word texts words hword hrest ih =>
      intro done
      cases hrest with
      | nil =>
        rw [List.intercalate_singleton, hword]
        exact ⟨some word, done, rfl, rfl⟩
      | cons hnext hrest =>
        obtain ⟨last, complete, hlast, hwords⟩ := ih (done ++ [word])
        refine ⟨last, complete, ?_, by rw [hwords, List.append_assoc, List.singleton_append]⟩
        rw [List.intercalate_cons_cons, List.append_assoc, List.foldlM_append, hword]
        exact hlast
  obtain ⟨word, complete, hread, hwords⟩ := hall []
  rw [splitWords, hread, Option.bind_some, if_pos rfl, hwords, List.nil_append]

/-! ## The `env` command -/

/-- The environment that is set, and the command that is run in it. -/
structure EnvCommand where
  assignments : List (String × String)
  command : List String
  deriving DecidableEq, Repr

/-- Operands with an equals sign are assignments, up to the first one without. -/
@[grind =] def envOperands : List String → Option EnvCommand
  | [] => some ⟨[], []⟩
  | operand :: rest =>
    match splitOnce '=' operand with
    | none => some ⟨[], operand :: rest⟩
    | some (name, value) =>
      if name = "" then none
      else (envOperands rest).map fun run => { run with assignments := (name, value) :: run.assignments }

/-- The operands of `env`; its options are not read. -/
def envCommand (operands : List String) : Option EnvCommand :=
  if operands.head?.any fun operand => operand.toList.head? = some '-' then none else envOperands operands

theorem envOperands_assignment {name value : List Char} {rest : List String} (hname : name ≠ []) (h : '=' ∉ name) :
    envOperands (String.ofList (name ++ '=' :: value) :: rest) = (envOperands rest).map fun run =>
      { run with assignments := (String.ofList name, String.ofList value) :: run.assignments } := by
  rw [envOperands, splitOnce_append h]
  exact if_neg fun hempty => hname (by rw [← String.toList_ofList (l := name), hempty]; rfl)

theorem envOperands_command {operand : String} {rest : List String} (h : '=' ∉ operand.toList) :
    envOperands (operand :: rest) = some ⟨[], operand :: rest⟩ := by
  rw [envOperands, splitOnce_none h]

/-- An operand with an equals sign is not the command. -/
theorem command_ne_of_assignment {operand : String} {rest : List String} {run : EnvCommand} (h : '=' ∈ operand.toList)
    (hrun : envOperands (operand :: rest) = some run) : run.assignments ≠ [] := by
  rw [envOperands] at hrun
  split at hrun
  · rename_i hsplit
    rw [splitOnce, if_pos h] at hsplit
    cases hsplit
  · split at hrun
    · cases hrun
    · obtain ⟨tail, -, rfl⟩ := Option.map_eq_some_iff.mp hrun
      exact List.cons_ne_nil _ _

end Firestone.Lib
