import Firestone.Lib.Text

/-!
# The arguments of a copy command

A copy command reads options first. Then come its operands, each a file of this host or a path on another one.

* `getopt` — options and operands. Options end at the first word that is none.
* `getopt_flag`, `getopt_value`, `getopt_operands` — one word after the other.
* `readOperand` — an operand with a colon before its first slash names a host, unless the colon is its first character.
* `readOperand_file`, `readOperand_host` — operands of the two kinds.
-/

namespace Firestone.Lib

/-! ## Options -/

/-- The letters of the options a command has, and whether a value follows. -/
abbrev OptionTable := Char → Option Bool

structure ReadArguments where
  options : List (Char × Option String)
  operands : List String
  deriving DecidableEq, Repr

/-- The options of one word, and the one that still needs its value. -/
@[grind =] def readLetters (table : OptionTable) : List Char → Option (List (Char × Option String) × Option Char)
  | [] => some ([], none)
  | c :: rest =>
    match table c with
    | none => none
    | some false => (readLetters table rest).map fun r => ((c, none) :: r.1, r.2)
    | some true => if rest = [] then some ([], some c) else some ([(c, some (String.ofList rest))], none)

/-- The letters of a word that gives options; `-` alone is an operand. -/
def optionLetters (word : String) : Option (List Char) :=
  match word.toList with
  | '-' :: c :: rest => some (c :: rest)
  | _ => none

/-- `getopt`: options up to the first operand, or up to `--`. -/
@[grind =] def getopt (table : OptionTable) : List String → Option ReadArguments
  | [] => some ⟨[], []⟩
  | word :: rest =>
    match optionLetters word with
    | none => some ⟨[], word :: rest⟩
    | some letters =>
      if letters = ['-'] then some ⟨[], rest⟩
      else match readLetters table letters with
        | none => none
        | some (options, none) => (getopt table rest).map fun r => { r with options := options ++ r.options }
        | some (options, some c) =>
          match rest with
          | [] => none
          | value :: rest => (getopt table rest).map fun r => { r with options := options ++ (c, some value) :: r.options }

section Getopt

variable {table : OptionTable} {c : Char} {word : String} {rest : List String}

/-- A letter without a value. -/
theorem getopt_flag (hword : optionLetters word = some [c]) (hc : c ≠ '-') (h : table c = some false) :
    getopt table (word :: rest) = (getopt table rest).map fun r => { r with options := (c, none) :: r.options } := by
  rw [getopt.eq_def]
  simp [hword, hc, readLetters, h]

/-- A letter with its value, whatever the value is. -/
theorem getopt_value {value : String} (hword : optionLetters word = some [c]) (hc : c ≠ '-') (h : table c = some true) :
    getopt table (word :: value :: rest) =
      (getopt table rest).map fun r => { r with options := (c, some value) :: r.options } := by
  rw [getopt.eq_def]
  simp [hword, hc, readLetters, h]

theorem getopt_operands (h : optionLetters word = none) :
    getopt table (word :: rest) = some ⟨[], word :: rest⟩ := by
  rw [getopt.eq_def]
  simp only [h]

end Getopt

/-! ## Operands -/

/-- An operand as the copy command takes it. -/
inductive ReadOperand
  | file (path : String)
  | host (user : Option String) (host path : String)
  | uri (text : String)
  deriving DecidableEq, Repr

/-- The text before and after the colon that ends a host. Between brackets colons belong to the host. -/
@[grind =] def scanHost (bracket : Bool) : List Char → Option (List Char × List Char)
  | [] => none
  | c :: rest =>
    let bracket := bracket || (c = '@' && rest.head? = some '[')
    if c = ']' ∧ rest.head? = some ':' ∧ bracket = true then some ([c], rest.tail)
    else if c = ':' ∧ bracket = false then some ([], rest)
    else if c = '/' then none
    else (scanHost bracket rest).map fun r => (c :: r.1, r.2)

/-- A colon at the front is part of a file's name. -/
def splitAtHost (s : List Char) : Option (List Char × List Char) :=
  if s.head? = some ':' then none else scanHost (s.head? = some '[') s

/-- A host without its brackets. -/
def cleanHostname (s : String) : String :=
  if s.toList.head? = some '[' ∧ s.toList.getLast? = some ']' then String.ofList (s.toList.tail.dropLast) else s

/-- An operand of the command whose scheme is `scheme`. An empty path is the directory of the login. -/
def readOperand (scheme s : String) : ReadOperand :=
  if (scheme ++ "://").toList.isPrefixOf s.toList then .uri s
  else match splitAtHost s.toList with
    | none => .file s
    | some (account, path) =>
      let path := if path = [] then "." else String.ofList path
      match rsplitOnceChar '@' (String.ofList account) with
      | none => .host none (cleanHostname (String.ofList account)) path
      | some (user, host) => .host (if user = "" then none else some user) (cleanHostname host) path

theorem scanHost_none {bracket : Bool} {s : List Char} (h : ':' ∉ s.takeWhile (· ≠ '/')) : scanHost bracket s = none := by
  induction s generalizing bracket with
  | nil => rfl
  | cons c rest ih =>
    by_cases hslash : c = '/'
    · subst hslash
      rw [scanHost]
      simp
    · rw [List.takeWhile_cons_of_pos (by simpa using hslash), List.mem_cons, not_or] at h
      have hnext : rest.head? ≠ some ':' := by
        intro hhead
        obtain ⟨tail, rfl⟩ := List.head?_eq_some_iff.mp hhead
        exact h.2 (by simp)
      rw [scanHost]
      simp only [hnext, Ne.symm h.1, hslash, false_and, and_false, if_false, ih h.2, Option.map_none]

/-- A text whose first slash comes before any colon is a file. -/
theorem readOperand_file {scheme s : String} (h : ':' ∉ s.toList.takeWhile (· ≠ '/')) (hscheme : '/' ∉ scheme.toList) :
    readOperand scheme s = .file s := by
  have huri : (scheme ++ "://").toList.isPrefixOf s.toList = false := by
    rw [Bool.eq_false_iff, ne_eq, List.isPrefixOf_iff_prefix]
    rintro ⟨rest, hrest⟩
    refine h (hrest ▸ ?_)
    rw [String.toList_append, List.append_assoc, List.takeWhile_append_of_pos]
    · refine List.mem_append_right _ ?_
      have hcolon : ("://".toList ++ rest).takeWhile (· ≠ '/') = [':'] := rfl
      rw [hcolon]
      exact List.mem_cons_self
    · intro c hc
      rw [decide_eq_true_eq]
      rintro rfl
      exact hscheme hc
  have hsplit : splitAtHost s.toList = none := by
    rw [splitAtHost]
    split
    · rfl
    · exact scanHost_none h
  rw [readOperand, huri, hsplit, if_neg Bool.false_ne_true]

/-- Up to a colon nothing ends the host. -/
theorem scanHost_colon {s rest : List Char} (h : ∀ c ∈ s, c ≠ ':' ∧ c ≠ '/' ∧ c ≠ '[' ∧ c ≠ ']') :
    scanHost false (s ++ ':' :: rest) = some (s, rest) := by
  induction s with
  | nil =>
    rw [List.nil_append, scanHost]
    simp
  | cons c s ih =>
    obtain ⟨⟨hcolon, hslash, -, hclose⟩, hs⟩ := List.forall_mem_cons.mp h
    have hnext : decide ((s ++ ':' :: rest).head? = some '[') = false := by
      cases s with
      | nil => rfl
      | cons d s => simpa using (hs d List.mem_cons_self).2.2.1
    rw [List.cons_append, scanHost]
    simp only [hcolon, hslash, hclose, hnext, false_and, if_false, Bool.and_false, Bool.false_or, ih hs, Option.map_some]

theorem readOperand_host {scheme user host path : String} (huser : user ≠ "")
    (h : ∀ c ∈ (user ++ "@" ++ host).toList, c ≠ ':' ∧ c ≠ '/' ∧ c ≠ '[' ∧ c ≠ ']') (hat : '@' ∉ host.toList)
    (hscheme : ':' ∉ scheme.toList ∧ '@' ∉ scheme.toList) :
    readOperand scheme (user ++ "@" ++ host ++ ":" ++ path) =
      .host (some user) host (if path = "" then "." else path) := by
  have htext : (user ++ "@" ++ host ++ ":" ++ path).toList = (user ++ "@" ++ host).toList ++ ':' :: path.toList := by
    simp [String.toList_append]
  have hhead : ∃ c tail, (user ++ "@" ++ host).toList = c :: tail := by
    rw [← List.ne_nil_iff_exists_cons]
    simp [String.toList_append]
  have huri : (scheme ++ "://").toList.isPrefixOf (user ++ "@" ++ host ++ ":" ++ path).toList = false := by
    rw [Bool.eq_false_iff, ne_eq, List.isPrefixOf_iff_prefix]
    rintro ⟨rest, hrest⟩
    have hcolon : ∀ (l r : List Char), ':' ∉ l → (l ++ ':' :: r).takeWhile (· ≠ ':') = l := by
      intro l r hl
      rw [List.takeWhile_append_of_pos fun c hc => by simpa using fun he : c = ':' => hl (he ▸ hc)]
      simp
    have hleft := hcolon (user ++ "@" ++ host).toList path.toList fun hc => (h _ hc).1 rfl
    have hright := hcolon scheme.toList ('/' :: '/' :: rest) hscheme.1
    have hscheme' : (scheme ++ "://").toList ++ rest = scheme.toList ++ ':' :: '/' :: '/' :: rest := by
      simp [String.toList_append]
    rw [← htext, ← hrest, hscheme', hright] at hleft
    exact hscheme.2 (hleft ▸ by simp [String.toList_append])
  have hsplit : splitAtHost (user ++ "@" ++ host ++ ":" ++ path).toList = some ((user ++ "@" ++ host).toList, path.toList) := by
    obtain ⟨c, tail, hc⟩ := hhead
    have hfirst := h c (hc ▸ List.mem_cons_self)
    have hopen : ¬ (c :: (tail ++ ':' :: path.toList)).head? = some '[' := by simpa using hfirst.2.2.1
    have hcolon : ¬ (c :: (tail ++ ':' :: path.toList)).head? = some ':' := by simpa using hfirst.1
    rw [splitAtHost, htext, hc, List.cons_append, if_neg hcolon, decide_eq_false hopen, ← List.cons_append, ← hc,
      scanHost_colon h]
  have haccount : rsplitOnceChar '@' (user ++ "@" ++ host) = some (user, host) := by
    have hjoin : user ++ "@" ++ host = String.ofList (user.toList ++ '@' :: host.toList) := by
      rw [← String.toList_inj]
      simp [String.toList_append]
    rw [hjoin, rsplitOnceChar_append hat, String.ofList_toList, String.ofList_toList]
  have hclean : cleanHostname host = host := if_neg fun hb => (h '[' (by
    rw [String.toList_append]
    exact List.mem_append_right _ (List.mem_of_mem_head? hb.1))).2.2.1 rfl
  rw [readOperand, huri, hsplit, if_neg Bool.false_ne_true]
  simp only [String.ofList_toList, haccount, hclean, if_neg huser, String.toList_eq_nil_iff]

end Firestone.Lib
