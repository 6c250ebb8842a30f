import Firestone.Lib.Bytes

/-!
# Paths of a Unix system

A path is text of the system, which need not be characters only. The functions are those of a standard library: they look
at the components of a path, so that separators may be doubled and a `.` in the middle counts for nothing.

* `components`, `isAbsolute`, `join`, `parent`, `fileName` — paths.
* `absolutePath` — an absolute path of plain names, as the system writes it.
* `components_absolutePath`, `join_absolutePath`, `parent_absolutePath` — such a path is taken apart as it was put together.
-/

namespace Firestone.Lib

/-- A piece of system text: a character, or bytes that are none. -/
inductive OsChar
  | char (c : Char) | other (bytes : List UInt8)
  deriving DecidableEq, Repr

abbrev OsString := List OsChar

namespace OsString

def ofString (s : String) : OsString := s.toList.map .char

def charsOf : OsString → Option (List Char)
  | [] => some []
  | .char c :: rest => (charsOf rest).map (c :: ·)
  | .other _ :: _ => none

/-- `to_str`. -/
def toStr (s : OsString) : Option String := (charsOf s).map String.ofList

/-- `display`, with a replacement character for what is no text. -/
def display (s : OsString) : String :=
  String.ofList (s.map fun | .char c => c | .other _ => Char.ofNat 0xfffd)

/-- The length of the text in bytes. -/
def byteLength (s : OsString) : Nat :=
  (s.map fun | .char c => c.utf8Size | .other bytes => bytes.length).sum

theorem eq_of_charsOf : ∀ {s : OsString} {cs : List Char}, charsOf s = some cs → s = cs.map OsChar.char
  | [], _, h => by
    cases h
    rfl
  | .char c :: rest, cs, h => by
    obtain ⟨tail, htail, rfl⟩ := Option.map_eq_some_iff.mp h
    rw [eq_of_charsOf htail]
    rfl
  | .other _ :: _, _, h => by cases h

theorem ofString_of_toStr {s : OsString} {t : String} (h : toStr s = some t) : s = ofString t := by
  obtain ⟨cs, hcs, rfl⟩ := Option.map_eq_some_iff.mp h
  rw [eq_of_charsOf hcs, ofString, String.toList_ofList]

theorem toStr_ofString (s : String) : toStr (ofString s) = some s := by
  have hchars : ∀ cs : List Char, charsOf (cs.map OsChar.char) = some cs := by
    intro cs
    induction cs with
    | nil => rfl
    | cons c cs ih => rw [List.map_cons, charsOf, ih, Option.map_some]
  rw [toStr, ofString, hchars, Option.map_some, String.ofList_toList]

theorem display_ofString (s : String) : display (ofString s) = s := by
  rw [display, ofString, List.map_map]
  exact (congrArg String.ofList (List.map_id s.toList)).trans (String.ofList_toList)

end OsString

/-! ## Components -/

def sep : OsChar := .char '/'

def dot : OsChar := .char '.'

inductive PathComponent
  | rootDir | curDir | parentDir | normal (name : OsString)
  deriving DecidableEq, Repr

/-- What stands between two separators. -/
def pathPiece (piece : OsString) : Option PathComponent :=
  if piece = [] ∨ piece = [dot] then none
  else if piece = [dot, dot] then some .parentDir
  else some (.normal piece)

/-- `Path::components`: a `.` is a component only at the front of a relative path. -/
def pathComponents (path : OsString) : List PathComponent :=
  match path.splitOn sep with
  | [] => []
  | first :: rest =>
    if first = [] ∧ rest ≠ [] then .rootDir :: rest.filterMap pathPiece
    else if first = [dot] then .curDir :: rest.filterMap pathPiece
    else (first :: rest).filterMap pathPiece

def PathComponent.text : PathComponent → OsString
  | .rootDir => []
  | .curDir => [dot]
  | .parentDir => [dot, dot]
  | .normal name => name

/-- The path of some components. -/
def renderPath : List PathComponent → OsString
  | [.rootDir] => [sep]
  | .rootDir :: rest => rest.flatMap fun c => sep :: c.text
  | components => [sep].intercalate (components.map PathComponent.text)

def isAbsolute (path : OsString) : Bool := path.head? = some sep

/-- `Path::join`. -/
def joinPath (base path : OsString) : OsString :=
  if isAbsolute path then path
  else if base = [] ∨ base.getLast? = some sep then base ++ path
  else base ++ sep :: path

/-- `Path::parent`, up to separators that are doubled. -/
def parentPath (path : OsString) : Option OsString :=
  match (pathComponents path).getLast? with
  | none | some .rootDir => none
  | some _ => some (renderPath (pathComponents path).dropLast)

def fileName (path : OsString) : Option OsString :=
  match (pathComponents path).getLast? with
  | some (.normal name) => some name
  | _ => none

/-- `Path::file_stem`: the name up to its last dot, unless that is at the front. -/
def fileStem (path : OsString) : Option OsString :=
  (fileName path).map fun name =>
    let before := (name.reverse.dropWhile (· ≠ dot)).tail.reverse
    if dot ∈ name ∧ before ≠ [] then before else name

/-- Below an absolute directory a `.` in front counts for nothing. -/
theorem components_join_dot {cwd path : OsString} (hcwd : isAbsolute cwd = true) (hpath : isAbsolute path = false) :
    pathComponents (joinPath cwd (dot :: sep :: path)) = pathComponents (joinPath cwd path) := by
  have hdot : isAbsolute (dot :: sep :: path) = false := rfl
  -- both paths are the same text with a separator behind it
  obtain ⟨base, hjoin, hbase⟩ : ∃ base : OsString, (∀ p, isAbsolute p = false → joinPath cwd p = base ++ sep :: p) ∧
      ∃ pieces, base.splitOn sep = [] :: pieces := by
    obtain ⟨rest, rfl⟩ : ∃ rest, cwd = sep :: rest := by
      rw [isAbsolute, decide_eq_true_eq] at hcwd
      exact List.head?_eq_some_iff.mp hcwd
    have hsplit : ∀ l : OsString, (sep :: l).splitOn sep = [] :: l.splitOn sep := by
      intro l
      rw [← List.nil_append (sep :: l), List.splitOn_append_cons_self]
      rfl
    by_cases hend : (sep :: rest).getLast? = some sep
    · obtain ⟨init, hinit⟩ := List.getLast?_eq_some_iff.mp hend
      refine ⟨init, fun p hp => ?_, ?_⟩
      · rw [joinPath, hp, if_neg Bool.false_ne_true, if_pos (.inr hend), hinit, List.append_assoc, List.singleton_append]
      · cases init with
        | nil => exact ⟨[], by decide⟩
        | cons c init =>
          rw [List.cons_append, List.cons.injEq] at hinit
          rw [← hinit.1, hsplit]
          exact ⟨_, rfl⟩
    · refine ⟨sep :: rest, fun p hp => ?_, _, hsplit rest⟩
      rw [joinPath, hp, if_neg Bool.false_ne_true, if_neg (by simp [hend])]
  obtain ⟨pieces, hpieces⟩ := hbase
  have hcomponents : ∀ p : OsString,
      pathComponents (base ++ sep :: p) = .rootDir :: (pieces ++ p.splitOn sep).filterMap pathPiece := by
    intro p
    have hne : pieces ++ p.splitOn sep ≠ [] := by simp
    rw [pathComponents, List.splitOn_append_cons_self, hpieces, List.cons_append]
    exact if_pos ⟨rfl, hne⟩
  have hfront : (dot :: sep :: path).splitOn sep = [dot] :: path.splitOn sep := by
    rw [← List.singleton_append, List.splitOn_append_cons_self]
    rfl
  rw [hjoin _ hdot, hjoin _ hpath, hcomponents, hcomponents, hfront, List.filterMap_append, List.filterMap_append]
  rfl

/-! ## The first component -/

/-- A path whose first component is a name begins like that name. -/
theorem head_of_components {path name : OsString} (h : (pathComponents path).head? = some (.normal name)) :
    name.head? = path.head? := by
  -- the text in front of the first separator
  obtain ⟨first, rest, hsplit, hhead, hempty⟩ : ∃ first rest, path.splitOn sep = first :: rest ∧
      (first ≠ [] → first.head? = path.head?) ∧ (first = [] → rest = [] → path = []) := by
    by_cases hsep : sep ∈ path
    · obtain ⟨a, b, rfl, ha⟩ := List.eq_append_cons_of_mem hsep
      refine ⟨a, b.splitOn sep, ?_, fun hne => ?_, fun _ hnil => absurd hnil (List.splitOn_ne_nil _ _)⟩
      · rw [List.splitOn_append_cons_self, List.splitOn_eq_singleton ha, List.singleton_append]
      · rw [List.head?_append_of_ne_nil a hne]
    · exact ⟨path, [], List.splitOn_eq_singleton hsep, fun _ => rfl, fun h _ => h⟩
  rw [pathComponents, hsplit] at h
  simp only at h
  split_ifs at h with hroot hdot
  · cases h
  · cases h
  · have hne : first ≠ [] := by
      rintro rfl
      have hnil : rest = [] := by
        by_contra hrest
        exact hroot ⟨rfl, hrest⟩
      subst hnil
      cases h
    rw [← hhead hne]
    by_cases hdots : first = [dot, dot]
    · subst hdots
      cases h
    · have hpiece : pathPiece first = some (.normal first) := by
        rw [pathPiece, if_neg (not_or.mpr ⟨hne, hdot⟩), if_neg hdots]
      rw [List.filterMap_cons_some hpiece, List.head?_cons, Option.some.injEq, PathComponent.normal.injEq] at h
      rw [h]

theorem isAbsolute_joinPath {base path : OsString} (h : isAbsolute base = true) : isAbsolute (joinPath base path) = true := by
  obtain ⟨rest, rfl⟩ : ∃ rest, base = sep :: rest := by
    rw [isAbsolute, decide_eq_true_eq] at h
    exact List.head?_eq_some_iff.mp h
  unfold joinPath
  split_ifs with hpath
  · exact hpath
  · rfl
  · rfl

/-! ## Absolute paths -/

/-- The name of an entry of a directory. -/
structure IsName (name : OsString) : Prop where
  ne_nil : name ≠ []
  sep_notMem : sep ∉ name
  ne_dot : name ≠ [dot]
  ne_dots : name ≠ [dot, dot]

def absolutePath (names : List OsString) : OsString :=
  if names = [] then [sep] else names.flatMap (sep :: ·)

theorem pathPiece_name {name : OsString} (h : IsName name) : pathPiece name = some (.normal name) := by
  rw [pathPiece, if_neg (by simp [h.ne_nil, h.ne_dot]), if_neg h.ne_dots]

theorem filterMap_pathPiece {names : List OsString} (h : ∀ name ∈ names, IsName name) :
    names.filterMap pathPiece = names.map .normal := by
  induction names with
  | nil => rfl
  | cons name names ih =>
    rw [List.filterMap_cons_some (pathPiece_name (h name List.mem_cons_self)),
      ih fun n hn => h n (List.mem_cons_of_mem _ hn), List.map_cons]

theorem flatMap_sep (names : List OsString) : [sep].intercalate ([] :: names) = names.flatMap (sep :: ·) := by
  induction names with
  | nil => rfl
  | cons name names ih =>
    cases names with
    | nil => simp [List.intercalate]
    | cons name' names =>
      simp only [List.intercalate, List.intersperse, List.flatten] at ih ⊢
      simp [← ih]

theorem splitOn_flatMap_sep {names : List OsString} (h : ∀ name ∈ names, sep ∉ name) :
    (names.flatMap (sep :: ·)).splitOn sep = [] :: names := by
  rw [← flatMap_sep]
  refine List.splitOn_intercalate sep ?_ (List.cons_ne_nil _ _)
  rintro l (_ | ⟨_, hl⟩)
  · simp
  · exact h l hl

theorem components_absolutePath {names : List OsString} (h : ∀ name ∈ names, IsName name) :
    pathComponents (absolutePath names) = .rootDir :: names.map .normal := by
  unfold absolutePath
  split
  · rename_i hnil
    subst hnil
    decide
  · rename_i hne
    rw [pathComponents, splitOn_flatMap_sep fun n hn => (h n hn).sep_notMem]
    dsimp only
    rw [if_pos ⟨rfl, hne⟩, filterMap_pathPiece h]

theorem renderPath_absolutePath (names : List OsString) : renderPath (.rootDir :: names.map .normal) = absolutePath names := by
  cases names with
  | nil => rfl
  | cons name names =>
    rw [absolutePath, if_neg (List.cons_ne_nil _ _), List.map_cons]
    simp only [renderPath, List.flatMap_cons, List.flatMap_map]
    rfl

theorem isAbsolute_absolutePath (names : List OsString) : isAbsolute (absolutePath names) = true := by
  unfold absolutePath
  cases names with
  | nil => decide
  | cons name names => simp [isAbsolute]

/-- A name below a directory. -/
theorem join_absolutePath {names : List OsString} (h : ∀ n ∈ names, IsName n) {name : OsString} (hname : IsName name) :
    joinPath (absolutePath names) name = absolutePath (names ++ [name]) := by
  have hrelative : isAbsolute name = false := by
    rw [isAbsolute, decide_eq_false_iff_not]
    exact fun hhead => hname.sep_notMem (List.mem_of_mem_head? hhead)
  have hpath : absolutePath (names ++ [name]) = (names ++ [name]).flatMap (sep :: ·) := by
    rw [absolutePath, if_neg (by simp)]
  rw [joinPath, hrelative, hpath, if_neg Bool.false_ne_true, List.flatMap_append]
  cases hnames : names.getLast? with
  | none =>
    rw [List.getLast?_eq_none_iff] at hnames
    subst hnames
    simp [absolutePath]
  | some last =>
    obtain ⟨init, rfl⟩ := List.getLast?_eq_some_iff.mp hnames
    have hlast := h last (by simp)
    have hend : ¬ ((init ++ [last]).flatMap (sep :: ·) = [] ∨ ((init ++ [last]).flatMap (sep :: ·)).getLast? = some sep) := by
      rintro (hnil | hsep)
      · simp at hnil
      · obtain ⟨c, hc⟩ : ∃ c, last.getLast? = some c := ⟨_, List.getLast?_eq_some_getLast hlast.ne_nil⟩
        have : c = sep := by
          simp only [List.flatMap_append, List.flatMap_cons, List.flatMap_nil, List.append_nil, List.getLast?_append,
            List.getLast?_cons, hc] at hsep
          simpa using hsep
        exact hlast.sep_notMem (this ▸ List.mem_of_mem_getLast? hc)
    have hbase : absolutePath (init ++ [last]) = (init ++ [last]).flatMap (sep :: ·) := by
      rw [absolutePath, if_neg (by simp)]
    rw [hbase, if_neg hend]
    simp

/-- And the directory and the name are found again. -/
theorem parent_absolutePath {names : List OsString} (h : ∀ n ∈ names, IsName n) {name : OsString} (hname : IsName name) :
    parentPath (absolutePath (names ++ [name])) = some (absolutePath names) ∧
      fileName (absolutePath (names ++ [name])) = some name := by
  have hall : ∀ n ∈ names ++ [name], IsName n := by
    intro n hn
    rcases List.mem_append.mp hn with hn | hn
    · exact h n hn
    · exact List.mem_singleton.mp hn ▸ hname
  have hcomponents : pathComponents (absolutePath (names ++ [name])) = (.rootDir :: names.map .normal) ++ [.normal name] := by
    rw [components_absolutePath hall, List.map_append]
    rfl
  constructor
  · rw [parentPath, hcomponents, List.getLast?_concat, List.dropLast_concat]
    simp only [renderPath_absolutePath]
  · rw [fileName, hcomponents, List.getLast?_concat]

/-- What is found last in a path is a name. -/
theorem isName_of_fileName {path name : OsString} (h : fileName path = some name) : IsName name := by
  have hmem : PathComponent.normal name ∈ pathComponents path := by
    unfold fileName at h
    split at h
    · rename_i hlast
      cases h
      exact List.mem_of_mem_getLast? hlast
    · cases h
  have hpiece : ∃ piece ∈ path.splitOn sep, pathPiece piece = some (.normal name) := by
    unfold pathComponents at hmem
    split at hmem
    · cases hmem
    · rename_i first rest hsplit
      rw [hsplit]
      split at hmem
      · obtain ⟨piece, hp, h⟩ := List.mem_filterMap.mp ((List.mem_cons.mp hmem).resolve_left (by simp))
        exact ⟨piece, List.mem_cons_of_mem _ hp, h⟩
      · split at hmem
        · obtain ⟨piece, hp, h⟩ := List.mem_filterMap.mp ((List.mem_cons.mp hmem).resolve_left (by simp))
          exact ⟨piece, List.mem_cons_of_mem _ hp, h⟩
        · exact List.mem_filterMap.mp hmem
  obtain ⟨piece, hpiece, hname⟩ := hpiece
  unfold pathPiece at hname
  split at hname
  · cases hname
  · rename_i hnot
    split at hname
    · cases hname
    · rename_i hdots
      cases hname
      exact ⟨fun h => hnot (.inl h), notMem_of_mem_splitOn hpiece, fun h => hnot (.inr h), hdots⟩

end Firestone.Lib
