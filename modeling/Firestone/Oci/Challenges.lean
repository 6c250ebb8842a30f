import Firestone.Lib.IndexLoop
import Firestone.Lib.TextLines
import Firestone.Oci.Auth

/-!
# Authentication challenges, character by character

The parameters of a challenge are read by an index that goes through text of a server.

* `challengeParametersLoop` — the loop over the index, with checked reads.
* `challengeParametersLoop_eq` — on every text it ends within as many turns as there are characters, without a read out of
  range, with the parameters of `parseChallengeParameters`.
* `challengeText`, `parseParameters_items` — a challenge as a server writes it, and what is read of its parameters.
* `parseAuthChallenge_faithful` — the two together.
-/

namespace Firestone.Oci

open Firestone.Lib

/-! ## The loop -/

def isSeparator (c : Char) : Bool := isWhitespace c || c = ','

def isNameCharacter (c : Char) : Bool := c ≠ '=' && c ≠ ','

/-- One turn of the loop inside of quotes. -/
def quotedTurn (characters : List Char) (state : Nat × List Char) : Checked ((Nat × List Char) ⊕ (Nat × List Char)) :=
  let (index, value) := state
  if index < characters.length then do
    let character ← readAt characters index
    if character = '\\' ∧ index + 1 < characters.length then do
      let escaped ← readAt characters (index + 1)
      return .inl (index + 2, value ++ [escaped])
    else if character = '"' then return .inr (index + 1, value)
    else return .inl (index + 1, value ++ [character])
  else return .inr (index, value)

/-- The value after an equals sign, with the index after it. -/
def valueLoop (characters : List Char) (fuel index : Nat) : Checked (Nat × List Char) := do
  if ← isAt characters index '"' then loop (quotedTurn characters) fuel (index + 1, [])
  else do
    let stop ← scanWhile (· ≠ ',') characters fuel index
    return (stop, ← slice characters index stop)

/-- One turn of the loop over the parameters. -/
def parameterTurn (characters : List Char) (fuel : Nat) (state : Nat × List (String × String)) :
    Checked ((Nat × List (String × String)) ⊕ List (String × String)) :=
  let (index, parameters) := state
  if index < characters.length then do
    let start ← scanWhile isSeparator characters fuel index
    let stop ← scanWhile isNameCharacter characters fuel start
    let name := toAsciiLowercase (trim (String.ofList (← slice characters start stop)))
    if ← isAt characters stop '=' then do
      let (index, value) ← valueLoop characters fuel (stop + 1)
      return .inl (index, addParameter name (trim (String.ofList value)) parameters)
    else return .inl (stop + 1, addParameter name "" parameters)
  else return .inr parameters

/-- `parse_challenge_parameters`, with the fuel for each of its loops. -/
def challengeParametersLoop (fuel : Nat) (rest : String) : Checked (List (String × String)) :=
  loop (parameterTurn rest.toList fuel) fuel (0, [])

/-! ## One parameter -/

/-- A character that stands for itself. A backslash does at the end of the text. -/
theorem readQuoted_cons {c : Char} {rest : List Char} (hescape : c = '\\' → rest = []) (hquote : c ≠ '"') :
    readQuoted (c :: rest) = (c :: (readQuoted rest).1, (readQuoted rest).2) := by
  rw [readQuoted]
  · rintro d after rfl rfl
    cases hescape rfl
  · exact hquote

theorem readQuoted_suffix (l : List Char) : (readQuoted l).2 <:+ l := by
  induction l using readQuoted.induct with
  | case1 => exact List.suffix_rfl
  | case2 c rest ih =>
    rw [readQuoted]
    exact ih.trans ((List.suffix_cons c rest).trans (List.suffix_cons _ _))
  | case3 rest =>
    rw [readQuoted]
    exact List.suffix_cons _ _
  | case4 c rest hescape hquote ih =>
    rw [readQuoted]
    · exact ih.trans (List.suffix_cons c rest)
    · exact hescape
    · exact hquote

theorem readValue_suffix (l : List Char) : (readValue l).2 <:+ l := by
  unfold readValue
  split
  · exact (readQuoted_suffix _).trans (List.suffix_cons _ _)
  · exact List.dropWhile_suffix _

/-- What `parseParameters` does in a round. -/
def nextParameter (rest : List Char) (parameters : List (String × String)) : List Char × List (String × String) :=
  let rest := rest.dropWhile isSeparator
  let name := toAsciiLowercase (trim (String.ofList (rest.takeWhile isNameCharacter)))
  match rest.dropWhile isNameCharacter with
  | '=' :: rest => ((readValue rest).2, addParameter name (trim (String.ofList (readValue rest).1)) parameters)
  | rest => (rest.tail, addParameter name "" parameters)

theorem parseParameters_succ {rounds : Nat} {rest : List Char} {parameters : List (String × String)} (h : rest ≠ []) :
    parseParameters (rounds + 1) rest parameters =
      parseParameters rounds (nextParameter rest parameters).1 (nextParameter rest parameters).2 := by
  have hseparator : (fun c => isWhitespace c || decide (c = ',')) = isSeparator := rfl
  have hnameCharacter : (fun c : Char => decide (c ≠ '=') && decide (c ≠ ',')) = isNameCharacter := rfl
  rw [parseParameters]
  · rw [hseparator, hnameCharacter]
    unfold nextParameter
    dsimp only
    generalize toAsciiLowercase (trim (String.ofList ((rest.dropWhile isSeparator).takeWhile isNameCharacter))) = name
    generalize (rest.dropWhile isSeparator).dropWhile isNameCharacter = after
    rcases after with _ | ⟨c, rest⟩
    · rfl
    · by_cases hequals : c = '='
      · subst hequals
        rfl
      · simp [hequals]
  · exact h

/-- A round reads at least one character. -/
theorem nextParameter_length {rest : List Char} (parameters : List (String × String)) (h : rest ≠ []) :
    (nextParameter rest parameters).1.length < rest.length := by
  have hpos := List.length_pos_iff.mpr h
  have hseparators := (List.dropWhile_suffix isSeparator (l := rest)).length_le
  have hname := (List.dropWhile_suffix isNameCharacter (l := rest.dropWhile isSeparator)).length_le
  unfold nextParameter
  dsimp only
  split
  · rename_i after heq
    have hvalue := (readValue_suffix after).length_le
    rw [heq, List.length_cons] at hname
    dsimp only
    omega
  · rename_i after heq
    dsimp only
    rw [List.length_tail]
    omega

/-- More rounds than characters make no difference. -/
theorem parseParameters_rounds : ∀ {m n : Nat} {rest : List Char} {parameters : List (String × String)},
    rest.length ≤ m → rest.length ≤ n → parseParameters m rest parameters = parseParameters n rest parameters
  | 0, n, rest, parameters, hm, _ => by
    rw [List.length_eq_zero_iff.mp (Nat.le_zero.mp hm)]
    cases n <;> rfl
  | m + 1, 0, rest, parameters, _, hn => by
    rw [List.length_eq_zero_iff.mp (Nat.le_zero.mp hn)]
    rfl
  | m + 1, n + 1, rest, parameters, hm, hn => by
    by_cases hrest : rest = []
    · subst hrest
      rfl
    · have hnext := nextParameter_length parameters hrest
      rw [parseParameters_succ hrest, parseParameters_succ hrest]
      exact parseParameters_rounds (by omega) (by omega)

/-! ## Every text -/

section Indexed

variable {characters : List Char} {fuel : Nat}

/-- The rest after the end of a text that ends a list starts as far from the end. -/
theorem drop_of_suffix {l rest : List Char} {index : Nat} (h : rest <:+ l) (hl : characters.drop index = l) :
    characters.drop (index + (l.length - rest.length)) = rest := by
  rw [← List.drop_drop, hl]
  exact (List.suffix_iff_eq_drop.mp h).symm

/-- What the loop inside of quotes makes of a state. -/
def quotedResult (characters : List Char) (state : Nat × List Char) : Nat × List Char :=
  let rest := characters.drop state.1
  (state.1 + (rest.length - (readQuoted rest).2.length), state.2 ++ (readQuoted rest).1)

theorem quotedTurn_eq (state : Nat × List Char) :
    quotedTurn characters state = .ok (.inr (quotedResult characters state)) ∨
      ∃ next, quotedTurn characters state = .ok (.inl next) ∧
        characters.length - next.1 < characters.length - state.1 ∧
        quotedResult characters next = quotedResult characters state := by
  obtain ⟨index, value⟩ := state
  by_cases hindex : index < characters.length
  · obtain ⟨c, rest, hdrop⟩ := exists_drop_eq_cons hindex
    have hrest := drop_succ_of_drop hdrop
    have hlength : rest.length = characters.length - (index + 1) := by rw [← hrest, List.length_drop]
    have hsuffix := (readQuoted_suffix rest).length_le
    by_cases hescape : c = '\\' ∧ index + 1 < characters.length
    · -- a backslash with a character after it
      obtain ⟨rfl, hnext⟩ := hescape
      obtain ⟨d, after, hdrop'⟩ := exists_drop_eq_cons hnext
      obtain rfl : rest = d :: after := by rw [← hrest, hdrop']
      have hafter := drop_succ_of_drop hdrop'
      have hsuffix := (readQuoted_suffix after).length_le
      refine .inr ⟨(index + 2, value ++ [d]), ?_, by dsimp only; omega, ?_⟩
      · simp [quotedTurn, hindex, readAt_of_drop hdrop, readAt_of_drop hdrop', hnext, bind, Except.bind, pure, Except.pure]
      · simp only [quotedResult, hdrop, hafter, readQuoted, List.length_cons, Prod.mk.injEq, List.append_assoc,
          List.singleton_append, and_true]
        omega
    · by_cases hquote : c = '"'
      · subst hquote
        refine .inl ?_
        simp [quotedTurn, quotedResult, hindex, hdrop, readAt_of_drop hdrop, readQuoted, bind, Except.bind, pure, Except.pure]
      · have hread := @readQuoted_cons c rest (fun hc => by
          rw [← List.length_eq_zero_iff]
          have hlast : ¬ index + 1 < characters.length := fun hnext => hescape ⟨hc, hnext⟩
          omega) hquote
        refine .inr ⟨(index + 1, value ++ [c]), ?_, by dsimp only; omega, ?_⟩
        · simp [quotedTurn, hindex, readAt_of_drop hdrop, hescape, hquote, bind, Except.bind, pure, Except.pure]
        · simp only [quotedResult, hdrop, hrest, hread, List.length_cons, Prod.mk.injEq, List.append_assoc,
            List.singleton_append, and_true]
          omega
  · refine .inl ?_
    have hdrop : characters.drop index = [] := List.drop_eq_nil_of_le (by omega)
    simp [quotedTurn, quotedResult, hindex, hdrop, readQuoted, pure, Except.pure]

theorem quotedLoop_eq {state : Nat × List Char} (h : characters.length < fuel) :
    loop (quotedTurn characters) fuel state = .ok (quotedResult characters state) :=
  loop_eq (quotedResult characters) (fun state => characters.length - state.1) quotedTurn_eq (by omega)

/-- The loop that reads a value reads it as `readValue`. -/
theorem valueLoop_eq {index : Nat} (h : characters.length < fuel) (hindex : index ≤ characters.length) :
    ∃ stop, valueLoop characters fuel index = .ok (stop, (readValue (characters.drop index)).1) ∧ index ≤ stop ∧
      characters.drop stop = (readValue (characters.drop index)).2 := by
  by_cases hquote : (characters.drop index).head? = some '"'
  · obtain ⟨rest, hdrop⟩ : ∃ rest, characters.drop index = '"' :: rest := by
      cases hdrop : characters.drop index with
      | nil => rw [hdrop] at hquote; cases hquote
      | cons c rest =>
        rw [hdrop] at hquote
        cases hquote
        exact ⟨rest, rfl⟩
    have hrest := drop_succ_of_drop hdrop
    refine ⟨index + 1 + (rest.length - (readQuoted rest).2.length), ?_, by omega, ?_⟩
    · rw [valueLoop, isAt_eq, decide_eq_true hquote]
      change loop (quotedTurn characters) fuel (index + 1, []) = _
      rw [quotedLoop_eq h, quotedResult, hdrop, hrest]
      rfl
    · rw [hdrop]
      exact drop_of_suffix (readQuoted_suffix rest) hrest
  · have hvalue : readValue (characters.drop index) = ((characters.drop index).takeWhile (· ≠ ','),
        (characters.drop index).dropWhile (· ≠ ',')) := by
      rw [readValue]
      rintro rest hdrop
      exact hquote (by rw [hdrop, List.head?_cons])
    refine ⟨index + ((characters.drop index).takeWhile (· ≠ ',')).length, ?_, by omega, ?_⟩
    · rw [valueLoop, isAt_eq, decide_eq_false hquote]
      change (scanWhile (· ≠ ',') characters fuel index >>= fun stop => _) = _
      rw [scanWhile_eq _ (by omega)]
      change (slice characters index _ >>= fun value => _) = _
      rw [slice_scan _ hindex, hvalue]
      rfl
    · rw [hvalue]
      exact drop_scan _ _ _

/-- The parameters from a state on. -/
def parametersFrom (characters : List Char) (state : Nat × List (String × String)) : List (String × String) :=
  parseParameters characters.length (characters.drop state.1) state.2

theorem parameterTurn_next {index : Nat} (parameters : List (String × String)) (h : characters.length < fuel)
    (hindex : index < characters.length) :
    ∃ next, parameterTurn characters fuel (index, parameters) = .ok (.inl next) ∧ index < next.1 ∧
      (characters.drop next.1, next.2) = nextParameter (characters.drop index) parameters := by
  have hstart := scan_le isSeparator hindex.le
  have hrest := drop_scan isSeparator characters index
  have hscan : scanWhile isSeparator characters fuel index = _ := scanWhile_eq isSeparator (by omega)
  have hle : index ≤ index + ((characters.drop index).takeWhile isSeparator).length := Nat.le_add_right _ _
  generalize index + ((characters.drop index).takeWhile isSeparator).length = start at hstart hrest hscan hle
  have hstop := scan_le isNameCharacter hstart
  have hafter := drop_scan isNameCharacter characters start
  have hscan' : scanWhile isNameCharacter characters fuel start = _ := scanWhile_eq isNameCharacter (by omega)
  have hname := slice_scan isNameCharacter hstart
  have hle' : start ≤ start + ((characters.drop start).takeWhile isNameCharacter).length := Nat.le_add_right _ _
  generalize start + ((characters.drop start).takeWhile isNameCharacter).length = stop at hstop hafter hscan' hname hle'
  rw [hrest] at hafter hname
  have hnext : parameterTurn characters fuel (index, parameters) = (do
      let name := toAsciiLowercase
        (trim (String.ofList (((characters.drop index).dropWhile isSeparator).takeWhile isNameCharacter)))
      if ← isAt characters stop '=' then do
        let (index, value) ← valueLoop characters fuel (stop + 1)
        return .inl (index, addParameter name (trim (String.ofList value)) parameters)
      else return .inl (stop + 1, addParameter name "" parameters)) := by
    rw [parameterTurn, if_pos hindex, hscan]
    change (scanWhile isNameCharacter characters fuel start >>= fun stop => _) = _
    rw [hscan']
    change (slice characters start stop >>= fun name => _) = _
    rw [hname]
    rfl
  rw [hnext, isAt_eq, hafter]
  unfold nextParameter
  dsimp only
  generalize toAsciiLowercase
    (trim (String.ofList (((characters.drop index).dropWhile isSeparator).takeWhile isNameCharacter))) = name
  split
  · rename_i after heq
    have hdrop : characters.drop (stop + 1) = after := drop_succ_of_drop (hafter.trans heq)
    have hinside : stop + 1 ≤ characters.length := by
      have hlength := congrArg List.length (hafter.trans heq)
      rw [List.length_drop, List.length_cons] at hlength
      omega
    obtain ⟨last, hvalue, hlast, hdrop'⟩ := valueLoop_eq h hinside
    rw [hdrop] at hvalue hdrop'
    refine ⟨(last, addParameter name (trim (String.ofList (readValue after).1)) parameters), ?_, by dsimp only; omega, ?_⟩
    · rw [heq]
      change (valueLoop characters fuel (stop + 1) >>= fun x => _) = _
      rw [hvalue]
      rfl
    · rw [hdrop']
  · rename_i hbare
    refine ⟨(stop + 1, addParameter name "" parameters), ?_, by dsimp only; omega, ?_⟩
    · have hhead : ((characters.drop index).dropWhile isSeparator |>.dropWhile isNameCharacter).head? ≠ some '=' := by
        intro hhead
        obtain ⟨after, heq⟩ := List.head?_eq_some_iff.mp hhead
        exact hbare after heq
      rw [decide_eq_false hhead]
      rfl
    · rw [← hafter, ← List.drop_one, List.drop_drop]

theorem parameterTurn_eq (h : characters.length < fuel) (state : Nat × List (String × String)) :
    parameterTurn characters fuel state = .ok (.inr (parametersFrom characters state)) ∨
      ∃ next, parameterTurn characters fuel state = .ok (.inl next) ∧
        characters.length - next.1 < characters.length - state.1 ∧
        parametersFrom characters next = parametersFrom characters state := by
  obtain ⟨index, parameters⟩ := state
  by_cases hindex : index < characters.length
  · obtain ⟨next, hturn, hlt, hnext⟩ := parameterTurn_next parameters h hindex
    rw [Prod.ext_iff] at hnext
    have hne : characters.drop index ≠ [] := by
      rw [ne_eq, List.drop_eq_nil_iff]
      omega
    refine .inr ⟨next, hturn, by dsimp only; omega, ?_⟩
    have hlength := List.length_drop (i := index) (l := characters)
    have hless := nextParameter_length parameters hne
    unfold parametersFrom
    dsimp only at hnext ⊢
    obtain ⟨rounds, hrounds⟩ : ∃ rounds, characters.length = rounds + 1 := ⟨characters.length - 1, by omega⟩
    rw [hnext.1, hnext.2, hrounds, parseParameters_succ hne]
    exact parseParameters_rounds (by omega) (by omega)
  · refine .inl ?_
    rw [parameterTurn, if_neg hindex, parametersFrom, List.drop_eq_nil_of_le (by dsimp only; omega)]
    cases characters.length <;> rfl

/-- **The loop ends on every text**, without a read out of range, with the parameters. -/
theorem challengeParametersLoop_eq {rest : String} {fuel : Nat} (h : rest.toList.length < fuel) :
    challengeParametersLoop fuel rest = .ok (parseChallengeParameters rest) :=
  loop_eq (parametersFrom rest.toList) (fun state => rest.toList.length - state.1) (parameterTurn_eq h) (by dsimp only; omega)

end Indexed

/-! ## What a server writes -/

def tokenPunctuation : List Char := "!#$%&'*+-.^_`|~".toList

/-- The characters of an HTTP token. -/
def isTokenCharacter (c : Char) : Bool := c.isAlphanum || tokenPunctuation.contains c

def IsToken (name : String) : Prop := name.toList ≠ [] ∧ ∀ c ∈ name.toList, isTokenCharacter c = true

/-- A text without white space at its ends. -/
def IsTrimmed (value : String) : Prop :=
  (∀ c, value.toList.head? = some c → isWhitespace c = false) ∧ ∀ c, value.toList.getLast? = some c → isWhitespace c = false

/-- Backslashes and quotes behind a backslash. -/
def escapeQuoted (value : List Char) : List Char := value.flatMap fun c => if c = '\\' ∨ c = '"' then ['\\', c] else [c]

def parameterText (parameter : String × String) : String :=
  parameter.1 ++ "=\"" ++ String.ofList (escapeQuoted parameter.2.toList) ++ "\""

/-- A challenge with some parameters. -/
def challengeText (parameters : List (String × String)) : String :=
  "Bearer " ++ ", ".intercalate (parameters.map parameterText)

theorem isTokenCharacter_range {c : Char} (h : isTokenCharacter c = true) :
    33 ≤ c.toNat ∧ c.toNat ≤ 126 ∧ isNameCharacter c = true := by
  have hpunctuation : ∀ x ∈ tokenPunctuation, 33 ≤ x.toNat ∧ x.toNat ≤ 126 ∧ isNameCharacter x = true :=
    forall_mem_of_all (by decide)
  rw [isTokenCharacter, Bool.or_eq_true, List.contains_iff_mem] at h
  rcases h with h | h
  · have hrange : (48 ≤ c.toNat ∧ c.toNat ≤ 57) ∨ (65 ≤ c.toNat ∧ c.toNat ≤ 90) ∨ (97 ≤ c.toNat ∧ c.toNat ≤ 122) := by
      change ((decide (c.val ≥ 'A'.val ∧ c.val ≤ 'Z'.val) || (c.val ≥ 'a'.val && c.val ≤ 'z'.val)) ||
        (c.val ≥ '0'.val && c.val ≤ '9'.val)) = true at h
      simp only [Bool.or_eq_true, Bool.and_eq_true, decide_eq_true_eq, ge_iff_le] at h
      rcases h with (h | h) | h
      · exact .inr (.inl ⟨h.1, h.2⟩)
      · exact .inr (.inr ⟨h.1, h.2⟩)
      · exact .inl ⟨h.1, h.2⟩
    have hequals : c ≠ '=' := by
      rintro rfl
      revert hrange
      decide
    have hcomma : c ≠ ',' := by
      rintro rfl
      revert hrange
      decide
    exact ⟨by omega, by omega, by simp [isNameCharacter, hequals, hcomma]⟩
  · exact hpunctuation c h

theorem isWhitespace_of_token {c : Char} (h : isTokenCharacter c = true) : isWhitespace c = false := by
  obtain ⟨hlow, hhigh, _⟩ := isTokenCharacter_range h
  simp only [isWhitespace, Bool.or_eq_false_iff, Bool.and_eq_false_iff, decide_eq_false_iff_not, beq_eq_false_iff_ne]
  omega

theorem isSeparator_of_token {c : Char} (h : isTokenCharacter c = true) : isSeparator c = false := by
  have hname := (isTokenCharacter_range h).2.2
  simp only [isNameCharacter, Bool.and_eq_true, decide_eq_true_eq] at hname
  simp [isSeparator, isWhitespace_of_token h, hname.2]

/-! ## Reading it -/

/-- A quoted value reads back. -/
theorem readQuoted_escapeQuoted (rest : List Char) : ∀ value : List Char,
    readQuoted (escapeQuoted value ++ '"' :: rest) = (value, rest)
  | [] => by simp [escapeQuoted, readQuoted]
  | c :: value => by
    have ih := readQuoted_escapeQuoted rest value
    by_cases hc : c = '\\' ∨ c = '"'
    · have htext : escapeQuoted (c :: value) ++ '"' :: rest = '\\' :: c :: (escapeQuoted value ++ '"' :: rest) := by
        simp [escapeQuoted, hc]
      rw [htext, readQuoted, ih]
    · have htext : escapeQuoted (c :: value) ++ '"' :: rest = c :: (escapeQuoted value ++ '"' :: rest) := by
        simp [escapeQuoted, hc]
      rw [not_or] at hc
      rw [htext, readQuoted_cons (fun hback => absurd hback hc.1) hc.2, ih]

theorem toList_parameterText (parameter : String × String) : (parameterText parameter).toList =
    parameter.1.toList ++ '=' :: '"' :: (escapeQuoted parameter.2.toList ++ ['"']) := by
  simp [parameterText]

/-- A parameter and the separators before it are read in one round. -/
theorem nextParameter_parameterText {parameter : String × String} (hname : IsToken parameter.1)
    (hvalue : IsTrimmed parameter.2) {separators : List Char} (hseparators : ∀ c ∈ separators, isSeparator c = true) (rest : List Char)
    (parameters : List (String × String)) :
    nextParameter (separators ++ ((parameterText parameter).toList ++ rest)) parameters =
      (rest, addParameter (toAsciiLowercase parameter.1) parameter.2 parameters) := by
  obtain ⟨name, value⟩ := parameter
  obtain ⟨hne, htoken⟩ := hname
  dsimp only at hne htoken hvalue ⊢
  obtain ⟨c, tail, hcons⟩ := List.exists_cons_of_ne_nil hne
  have hhead : isSeparator c = false := isSeparator_of_token (htoken c (by rw [hcons]; exact List.mem_cons_self))
  have htext : (parameterText (name, value)).toList ++ rest =
      name.toList ++ '=' :: '"' :: (escapeQuoted value.toList ++ '"' :: rest) := by
    rw [toList_parameterText]
    simp
  have hskip : (separators ++ ((parameterText (name, value)).toList ++ rest)).dropWhile isSeparator =
      name.toList ++ '=' :: '"' :: (escapeQuoted value.toList ++ '"' :: rest) := by
    rw [List.dropWhile_append_of_pos hseparators, htext, hcons, List.cons_append, List.dropWhile_cons_of_neg (by simp [hhead])]
  have hnames : ∀ x ∈ name.toList, isNameCharacter x = true := fun x hx => (isTokenCharacter_range (htoken x hx)).2.2
  have htake : (name.toList ++ '=' :: '"' :: (escapeQuoted value.toList ++ '"' :: rest)).takeWhile isNameCharacter =
      name.toList := by
    rw [List.takeWhile_append_of_pos hnames, List.takeWhile_cons_of_neg (by decide), List.append_nil]
  have hdrop : (name.toList ++ '=' :: '"' :: (escapeQuoted value.toList ++ '"' :: rest)).dropWhile isNameCharacter =
      '=' :: '"' :: (escapeQuoted value.toList ++ '"' :: rest) := by
    rw [List.dropWhile_append_of_pos hnames, List.dropWhile_cons_of_neg (by decide)]
  have hread : readValue ('"' :: (escapeQuoted value.toList ++ '"' :: rest)) = (value.toList, rest) :=
    readQuoted_escapeQuoted rest value.toList
  have htrimName : trim (String.ofList name.toList) = name := by
    rw [String.ofList_toList, trim_eq_self fun x hx => isWhitespace_of_token (htoken x hx)]
  have htrimValue : trim (String.ofList value.toList) = value := by
    rw [trim, String.toList_ofList, trimChars_eq hvalue.1 hvalue.2, String.ofList_toList]
  rw [nextParameter, hskip, htake, hdrop, htrimName]
  simp only [hread, htrimValue]

/-- The parameters of a challenge, each with the separators before it. -/
theorem parseParameters_items {separators : List Char} (hseparators : ∀ c ∈ separators, isSeparator c = true) :
    ∀ {items : List (String × String)} {rounds : Nat} {parameters : List (String × String)},
    (∀ p ∈ items, IsToken p.1 ∧ IsTrimmed p.2) → items.length ≤ rounds →
    parseParameters rounds (items.flatMap fun p => separators ++ (parameterText p).toList) parameters =
      items.foldl (fun parameters p => addParameter (toAsciiLowercase p.1) p.2 parameters) parameters
  | [], rounds, _, _, _ => by cases rounds <;> rfl
  | p :: items, 0, _, _, h => by simp at h
  | p :: items, rounds + 1, parameters, hitems, h => by
    obtain ⟨⟨hname, hvalue⟩, hitems⟩ := List.forall_mem_cons.mp hitems
    have htext : ((p :: items).flatMap fun p => separators ++ (parameterText p).toList) =
        separators ++ ((parameterText p).toList ++ items.flatMap fun p => separators ++ (parameterText p).toList) := by
      simp
    have hne : separators ++ ((parameterText p).toList ++ items.flatMap fun p => separators ++ (parameterText p).toList) ≠
        [] := by
      rw [toList_parameterText]
      simp
    rw [htext, parseParameters_succ hne, nextParameter_parameterText hname hvalue hseparators, List.foldl_cons]
    exact parseParameters_items hseparators hitems (Nat.le_of_succ_le_succ h)

theorem intercalate_cons_flatMap {α : Type} (sep : List α) : ∀ (a : List α) (l : List (List α)),
    sep.intercalate (a :: l) = a ++ l.flatMap (sep ++ ·)
  | a, [] => by simp
  | a, b :: l => by
    rw [List.intercalate_cons_cons, intercalate_cons_flatMap sep b l]
    simp

theorem addParameter_sorted (name value : String) {parameters : List (String × String)} (h : MembersSorted parameters) :
    MembersSorted (addParameter name value parameters) := by
  unfold addParameter
  split
  · exact h
  · exact h.insertMember

theorem lookup_addParameter {name value key : String} {parameters : List (String × String)} (hname : name ≠ "") :
    (addParameter name value parameters).lookup key =
      (parameters.lookup key).or (if name = key then some value else none) := by
  unfold addParameter
  by_cases hkey : name = key
  · subst hkey
    cases hlookup : parameters.lookup name with
    | none => simp [hname, lookup_insertMember_self]
    | some first => simp [hlookup]
  · rw [if_neg hkey, Option.or_none]
    split
    · rfl
    · exact lookup_insertMember_ne (Ne.symm hkey)

/-- The first value of each name is kept, in the order of the names. -/
theorem foldl_addParameter : ∀ (items : List (String × String)) {parameters : List (String × String)},
    (∀ p ∈ items, toAsciiLowercase p.1 ≠ "") → MembersSorted parameters →
    let result := items.foldl (fun parameters p => addParameter (toAsciiLowercase p.1) p.2 parameters) parameters
    MembersSorted result ∧ ∀ key, result.lookup key =
      (parameters.lookup key).or ((items.find? (toAsciiLowercase ·.1 = key)).map Prod.snd)
  | [], parameters, _, h => ⟨h, fun key => by simp⟩
  | p :: items, parameters, hitems, h => by
    obtain ⟨hp, hitems⟩ := List.forall_mem_cons.mp hitems
    obtain ⟨hsorted, hlookup⟩ := foldl_addParameter items hitems (addParameter_sorted (toAsciiLowercase p.1) p.2 h)
    refine ⟨hsorted, fun key => (hlookup key).trans ?_⟩
    rw [lookup_addParameter hp, Option.or_assoc]
    by_cases hkey : toAsciiLowercase p.1 = key
    · simp [hkey]
    · simp [hkey]

theorem toAsciiLowercase_ne_empty {name : String} (h : IsToken name) : toAsciiLowercase name ≠ "" := by
  intro hempty
  have hlist := congrArg String.toList hempty
  rw [toAsciiLowercase, String.toList_ofList] at hlist
  exact h.1 (List.map_eq_nil_iff.mp hlist)

theorem getLast?_parameters {separators : List Char} : ∀ (p : String × String) (items : List (String × String)),
    ((parameterText p).toList ++ items.flatMap fun p => separators ++ (parameterText p).toList).getLast? = some '"'
  | p, [] => by
    have htext : (parameterText p).toList = (p.1.toList ++ '=' :: '"' :: escapeQuoted p.2.toList) ++ ['"'] := by
      rw [toList_parameterText]
      simp
    rw [List.flatMap_nil, List.append_nil, htext, List.getLast?_concat]
  | p, q :: items => by
    rw [List.flatMap_cons, List.append_assoc, List.getLast?_append, List.getLast?_append, getLast?_parameters q items]
    rfl

theorem length_le_flatMap {α β : Type} {f : α → List β} (hf : ∀ a, f a ≠ []) : ∀ l : List α, l.length ≤ (l.flatMap f).length
  | [] => Nat.le_refl _
  | a :: l => by
    have hpos := List.length_pos_iff.mpr (hf a)
    have ih := length_le_flatMap hf l
    rw [List.flatMap_cons, List.length_append, List.length_cons]
    omega

/-- The scheme and the rest of a challenge as a server writes it. -/
theorem challengeText_parts {items : List (String × String)} (h : ∀ p ∈ items, IsToken p.1 ∧ IsTrimmed p.2) :
    ∃ rest, (trim (challengeText items)).toList = "Bearer".toList ++ rest ∧ (∀ c, rest.head? = some c → c = ' ') ∧
      parseChallengeParameters (String.ofList rest) =
        items.foldl (fun parameters p => addParameter (toAsciiLowercase p.1) p.2 parameters) [] := by
  cases items with
  | nil => exact ⟨[], by decide, by simp, rfl⟩
  | cons p items =>
    obtain ⟨⟨hname, hvalue⟩, hitems⟩ := List.forall_mem_cons.mp h
    have htext : (challengeText (p :: items)).toList = "Bearer".toList ++ ' ' :: ((parameterText p).toList ++
        items.flatMap fun p => ", ".toList ++ (parameterText p).toList) := by
      rw [challengeText, String.toList_append, String.toList_intercalate, List.map_cons, List.map_cons,
        intercalate_cons_flatMap, List.map_map, List.flatMap_map]
      rfl
    have htrim : trimChars (challengeText (p :: items)).toList = (challengeText (p :: items)).toList := by
      refine trimChars_eq (fun c hc => ?_) fun c hc => ?_
      · rw [htext] at hc
        cases hc
        decide
      · rw [htext, List.getLast?_append, List.getLast?_cons, getLast?_parameters] at hc
        cases hc
        decide
    refine ⟨' ' :: ((parameterText p).toList ++ items.flatMap fun p => ", ".toList ++ (parameterText p).toList), ?_, ?_, ?_⟩
    · rw [trim, String.toList_ofList, htrim, htext]
    · rintro c ⟨⟩
      rfl
    · have hspace : ∀ c ∈ [' '], isSeparator c = true := forall_mem_of_all (by decide)
      have hfirst := nextParameter_parameterText hname hvalue hspace
        (items.flatMap fun p => ", ".toList ++ (parameterText p).toList) []
      have hrounds : items.length ≤ ((parameterText p).toList ++
          items.flatMap fun p => ", ".toList ++ (parameterText p).toList).length := by
        have hlength := length_le_flatMap (f := fun p => ", ".toList ++ (parameterText p).toList) (by simp) items
        rw [List.length_append]
        omega
      rw [parseChallengeParameters, String.toList_ofList, List.length_cons, parseParameters_succ (List.cons_ne_nil _ _)]
      rw [List.singleton_append] at hfirst
      rw [hfirst, List.foldl_cons]
      exact parseParameters_items (forall_mem_of_all (by decide)) hitems hrounds

theorem takeWhile_bearer {rest : List Char} (h : ∀ c, rest.head? = some c → c = ' ') :
    ("Bearer".toList ++ rest).takeWhile (!isWhitespace ·) = "Bearer".toList ∧
      ("Bearer".toList ++ rest).dropWhile (!isWhitespace ·) = rest := by
  have hscheme : ∀ c ∈ "Bearer".toList, (!isWhitespace c) = true := forall_mem_of_all (by decide)
  rw [List.takeWhile_append_of_pos hscheme, List.dropWhile_append_of_pos hscheme]
  cases rest with
  | nil => simp
  | cons c rest =>
    obtain rfl := h c rfl
    rw [List.takeWhile_cons_of_neg (by decide), List.dropWhile_cons_of_neg (by decide), List.append_nil]
    exact ⟨rfl, rfl⟩

/-- **Challenges are read as they are written**: a Bearer challenge with the first value of each name, up to case; and the
loop that reads the parameters ends on every text without a read out of range. -/
theorem parseAuthChallenge_faithful {items : List (String × String)} (h : ∀ p ∈ items, IsToken p.1 ∧ IsTrimmed p.2) :
    (∃ challenge, parseAuthChallenge (challengeText items) = .ok challenge ∧ challenge.scheme = .bearer ∧
      MembersSorted challenge.parameters ∧
      ∀ name, challenge.parameter name = (items.find? (toAsciiLowercase ·.1 = name)).map Prod.snd) ∧
    ∀ (rest : String) (fuel : Nat), rest.toList.length < fuel →
      challengeParametersLoop fuel rest = .ok (parseChallengeParameters rest) := by
  refine ⟨?_, fun rest fuel hfuel => challengeParametersLoop_eq hfuel⟩
  obtain ⟨rest, htrim, hspace, hparameters⟩ := challengeText_parts h
  obtain ⟨htake, hdrop⟩ := takeWhile_bearer hspace
  obtain ⟨hsorted, hlookup⟩ := foldl_addParameter items
    (fun p hp => toAsciiLowercase_ne_empty (h p hp).1) List.Pairwise.nil
  have hparse : parseAuthChallenge (challengeText items) =
      .ok ⟨.bearer, items.foldl (fun parameters p => addParameter (toAsciiLowercase p.1) p.2 parameters) []⟩ := by
    rw [parseAuthChallenge, htrim, htake, hdrop, String.ofList_toList, hparameters]
    exact if_pos (by decide)
  exact ⟨_, hparse, rfl, hsorted, fun name => (hlookup name).trans (Option.none_or)⟩

/-- A value with separators, quotes and a backslash in it, and a name that is given twice. -/
def twoRealms : List (String × String) := [("Realm", "a\\, \"b\"=c"), ("realm", "d")]

theorem parseAuthChallenge_faithful_twoRealms : ∃ challenge,
    parseAuthChallenge (challengeText twoRealms) = .ok challenge ∧ challenge.parameter "realm" = some "a\\, \"b\"=c" := by
  have hitems : ∀ p ∈ twoRealms, IsToken p.1 ∧ IsTrimmed p.2 := by
    intro p hp
    rcases List.mem_cons.mp hp with rfl | hp
    · exact ⟨⟨by decide, forall_mem_of_all (by decide)⟩, forall_some_of_all (by decide), forall_some_of_all (by decide)⟩
    · obtain rfl := List.mem_singleton.mp hp
      exact ⟨⟨by decide, forall_mem_of_all (by decide)⟩, forall_some_of_all (by decide), forall_some_of_all (by decide)⟩
  obtain ⟨⟨challenge, hparse, _, _, hlookup⟩, _⟩ := parseAuthChallenge_faithful hitems
  exact ⟨challenge, hparse, hlookup "realm"⟩

end Firestone.Oci
