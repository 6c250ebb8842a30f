import Firestone.Paths
import Firestone.State
import Firestone.Lib.CopyArguments
import Firestone.Ssh.ProxyCommand

/-!
# Copies between this host and a machine

`cp` runs the copy command of OpenSSH. One of its two operands names a path of a machine, the other one a file of this host,
and both have to mean the same to that command.

* `classifyCpOperand`, `classifyCpOperands` — what the operands name.
* `CpHost.cpPlan` — the arguments the copy command gets.
* `deriveMachineName` — the name of a machine that is created without one.
* `escapeLocalCpOperand_same` — a local path is written so that it names the same file and no host.
* `cp_operands_read` — the copy command reads the operands as they were meant.
-/

namespace Firestone.Ssh

open Firestone.Lib

/-! ## Operands -/

inductive CpOperand
  | localPath (path : String)
  | remote (machine path : String)
  deriving DecidableEq, Repr

def CpOperand.machine? : CpOperand → Option String
  | .localPath _ => none
  | .remote machine _ => some machine

/-- The operands of a copy. Exactly one of them is on the machine. -/
structure CpOperands where
  machine : String
  source : CpOperand
  target : CpOperand
  exactlyOne : source.machine?.toList ++ target.machine?.toList = [machine]

def isMachineChar (c : Char) : Bool := ('a' ≤ c && c ≤ 'z') || c.isDigit || c = '-'

def isMachineOperand (value : String) : Bool := value ≠ "" && value.toList.all isMachineChar

def classifyCpOperand (value : String) : CpOperand :=
  match splitOnce ':' value with
  | some (machine, path) => if isMachineOperand machine then .remote machine path else .localPath value
  | none => .localPath value

def classifyCpOperands (source target : String) : Res CpOperands :=
  match classifyCpOperand source, classifyCpOperand target with
  | .remote machine path, .localPath value => .ok ⟨machine, .remote machine path, .localPath value, rfl⟩
  | .localPath value, .remote machine path => .ok ⟨machine, .localPath value, .remote machine path, rfl⟩
  | .localPath _, .localPath _ => .error ((FirestoneError.new .usage "neither cp operand names a machine").withHint
      "write exactly one operand as <machine>:<path>; prefix a local path with ./ to keep it local")
  | .remote _ _, .remote _ _ => .error ((FirestoneError.new .usage "both cp operands name a machine").withHint
      "copy between exactly one machine and the host; prefix a local path with ./ to keep it local")

/-- A colon before any slash would name a host. -/
def escapeLocalCpOperand (path : String) : String :=
  match path.toList.idxOf? ':', path.toList.idxOf? '/' with
  | some colon, some slash => if colon < slash then "./" ++ path else path
  | some _, none => "./" ++ path
  | none, _ => path

def renderCpOperand (operand : CpOperand) (name user : String) : OsString :=
  match operand with
  | .localPath path => .ofString (escapeLocalCpOperand path)
  | .remote _ path => .ofString (user ++ "@firestone." ++ name ++ ":" ++ path)

/-! ## The plan -/

def isUserStart (c : Char) : Bool := ('a' ≤ c && c ≤ 'z') || c = '_'

def isUserChar (c : Char) : Bool := ('a' ≤ c && c ≤ 'z') || c.isDigit || c = '_' || c = '-'

def validateGuestUser (user : String) : Res Unit :=
  if user.toList.head?.any isUserStart && user.toList.tail.all isUserChar then .ok ()
  else .error { (FirestoneError.new .invalidSpec ("invalid 'user': login user '" ++ user ++ "' is invalid")).withHint
    "use a name matching [a-z_][a-z0-9_-]*" with field := some "user" }

/-- A word of an OpenSSH configuration. -/
def sshConfigWord (path : OsString) (label : String) : Res String :=
  match path.toStr with
  | none => .error ((FirestoneError.new .dependency
      (label ++ " path cannot be represented in OpenSSH configuration")).withHint "use a UTF-8 Firestone data path")
  | some value =>
    let value := doublePercents value.toList
    if value ≠ [] ∧ value.all (fun c => isPlainChar c || c = '~') then .ok (String.ofList value)
    else .ok (String.ofList ('"' :: (replaceChar '"' ['\\', '"'] (replaceChar '\\' ['\\', '\\'] value) ++ ['"'])))

structure TerminalMachine where
  status : MachineStatus
  user : String

/-- What a copy finds on this host: directories, this executable, the identity and the trusted keys, and machines. -/
structure CpHost where
  configDir : OsString
  dataDir : OsString
  runtimeDir : OsString
  shimProgram : Res OsString
  ensureSshIdentity : Res OsString
  machineKnownHostsPath : String → Res OsString
  terminalMachine : String → Res TerminalMachine

def pushSshOption (option : String) : List OsString := [.ofString "-o", .ofString option]

/-- The options every connection has. -/
def CpHost.sshTransportOptions (host : CpHost) (currentExecutable : OsString) (name : String) (batchMode : Bool) :
    Res (List OsString) := do
  let identity ← host.ensureSshIdentity
  let knownHosts ← host.machineKnownHostsPath name
  let proxy ← proxyCommand host.configDir host.dataDir host.runtimeDir currentExecutable name
  let identity ← sshConfigWord identity "SSH identity"
  let knownHosts ← sshConfigWord knownHosts "machine known_hosts"
  .ok (pushSshOption ("ProxyCommand=" ++ proxy) ++ pushSshOption ("IdentityFile=" ++ identity) ++
    pushSshOption "IdentitiesOnly=yes" ++ pushSshOption ("UserKnownHostsFile=" ++ knownHosts) ++
    pushSshOption "StrictHostKeyChecking=accept-new" ++ pushSshOption "LogLevel=ERROR" ++
    if batchMode then pushSshOption "BatchMode=yes" else [])

structure SshCommandPlan where
  program : OsString
  args : List OsString

def CpHost.scpCommandPlan (host : CpHost) (currentExecutable : OsString) (name user : String) (recursive : Bool)
    (source target : CpOperand) : Res SshCommandPlan := do
  validateGuestUser user
  let options ← host.sshTransportOptions currentExecutable name false
  .ok ⟨.ofString "scp", (if recursive then [.ofString "-r"] else []) ++ options ++
    [renderCpOperand source name user, renderCpOperand target name user]⟩

structure CpResult where
  name : String
  user : String
  recursive : Bool
  program : String
  args : List String

def cpArgument (value : OsString) : Res String :=
  match value.toStr with
  | some value => .ok value
  | none => .error ((FirestoneError.new .usage ("cp argument " ++ debugQuote value.display ++ " is not valid UTF-8")).withHint
      "use UTF-8 cp operands and a UTF-8 Firestone home")

def cpNotRunningError (name : String) : FirestoneError :=
  (FirestoneError.new .notRunning ("machine " ++ name ++ " is not running")).withHint
    ("start it with firestone start " ++ name)

def CpHost.cpPlan (host : CpHost) (source target : String) (recursive : Bool) : Res CpResult := do
  let operands ← classifyCpOperands source target
  let name := operands.machine
  let machine ← host.terminalMachine name
  if machine.status ≠ .running then
    .error (cpNotRunningError name)
  else
    let user := machine.user
    let program ← host.shimProgram
    let plan ← host.scpCommandPlan program name user recursive operands.source operands.target
    let program ← cpArgument plan.program
    let args ← plan.args.mapM cpArgument
    .ok ⟨name, user, recursive, program, args⟩

/-! ## Names -/

inductive ClapErrorKind
  | argumentConflict | missingRequiredArgument | invalidValue
  deriving DecidableEq, Repr

structure ClapError where
  kind : ClapErrorKind
  message : String
  deriving DecidableEq, Repr

/-- The name of a machine whose image is all that is given. -/
def deriveMachineName (image : String) : Except ClapError String :=
  let candidate :=
    if '/' ∈ image.toList then
      let withoutSuffix := image.toList.takeWhile fun c => c ≠ '?' && c ≠ '#'
      let trimmed := String.ofList (withoutSuffix.reverse.dropWhile (· = '/')).reverse
      (fileStem (.ofString trimmed)).bind OsString.toStr
    else some (match splitOnce ':' image with | some (name, _) => name | none => image)
  match candidate with
  | some name =>
    if name ≠ "" ∧ name ≠ "." ∧ name ≠ ".." then .ok name
    else .error ⟨.invalidValue, "cannot derive a machine name from image '" ++ image ++ "'; pass NAME before IMAGE"⟩
  | none => .error ⟨.invalidValue, "cannot derive a machine name from image '" ++ image ++ "'; pass NAME before IMAGE"⟩

/-! ## Local operands -/

/-- A colon stands before any slash exactly when it is found at a smaller index, or no slash is found. -/
theorem mem_takeWhile_colon (s : List Char) : ':' ∈ s.takeWhile (· ≠ '/') ↔
    ∃ colon, s.idxOf? ':' = some colon ∧ ∀ slash, s.idxOf? '/' = some slash → colon < slash := by
  induction s with
  | nil => simp
  | cons c s ih =>
    by_cases hslash : c = '/'
    · subst hslash
      simp [List.idxOf?_cons]
    · rw [List.takeWhile_cons_of_pos (by simpa using hslash), List.mem_cons, ih]
      by_cases hcolon : c = ':'
      · subst hcolon
        simp [List.idxOf?_cons]
      · have hc : ':' ≠ c := Ne.symm hcolon
        simp [List.idxOf?_cons, hslash, hcolon, hc]

theorem escapeLocalCpOperand_eq (path : String) : escapeLocalCpOperand path =
    if ':' ∈ path.toList.takeWhile (· ≠ '/') then "./" ++ path else path := by
  rw [escapeLocalCpOperand]
  cases hcolon : path.toList.idxOf? ':' with
  | none => rw [if_neg (by rw [mem_takeWhile_colon, hcolon]; simp)]
  | some colon =>
    cases hslash : path.toList.idxOf? '/' with
    | none => rw [if_pos (by rw [mem_takeWhile_colon, hcolon, hslash]; simp)]
    | some slash =>
      by_cases h : colon < slash
      · rw [if_pos (by rw [mem_takeWhile_colon, hcolon, hslash]; simpa using h)]
        simp only [if_pos h]
      · rw [if_neg (by rw [mem_takeWhile_colon, hcolon, hslash]; simpa using h)]
        simp only [if_neg h]

theorem escapeLocalCpOperand_noHost (path : String) : ':' ∉ (escapeLocalCpOperand path).toList.takeWhile (· ≠ '/') := by
  rw [escapeLocalCpOperand_eq]
  split
  · rw [String.toList_append]
    have hfront : ("./".toList ++ path.toList).takeWhile (· ≠ '/') = ['.'] := rfl
    rw [hfront]
    decide
  · assumption

/-- The file is the same one, from every directory. -/
theorem escapeLocalCpOperand_same (path : String) {cwd : OsString} (hcwd : isAbsolute cwd = true) :
    pathComponents (joinPath cwd (.ofString (escapeLocalCpOperand path))) = pathComponents (joinPath cwd (.ofString path)) := by
  rw [escapeLocalCpOperand_eq]
  split
  · rename_i hcolon
    have hrelative : isAbsolute (.ofString path) = false := by
      rw [isAbsolute, decide_eq_false_iff_not, OsString.ofString, List.head?_map]
      intro hhead
      obtain ⟨c, hc, hsep⟩ := Option.map_eq_some_iff.mp hhead
      obtain ⟨tail, htail⟩ := List.head?_eq_some_iff.mp hc
      cases hsep
      rw [htail] at hcolon
      cases hcolon
    have htext : OsString.ofString ("./" ++ path) = dot :: sep :: OsString.ofString path := by
      rw [OsString.ofString, String.toList_append, List.map_append]
      rfl
    rw [htext, components_join_dot hcwd hrelative]
  · rfl

/-! ## What the copy command reads -/

/-- The options of `scp`. -/
def scpOptions : OptionTable := fun c =>
  if "12346ABCTdfOpqRrstv".toList.contains c then some false
  else if "DFJMPScilXo".toList.contains c then some true
  else none

/-- What `scp` is to make of an operand. -/
def CpOperand.asRead (user : String) : CpOperand → ReadOperand
  | .localPath path => .file (escapeLocalCpOperand path)
  | .remote machine path => .host (some user) ("firestone." ++ machine) (if path = "" then "." else path)

/-- Options with their values are read in order, and then the operands. -/
theorem getopt_scp (recursive : Bool) (values : List String) {operands : List String}
    (h : ∀ word ∈ operands.head?, optionLetters word = none) :
    getopt scpOptions ((if recursive then ["-r"] else []) ++ values.flatMap (fun value => ["-o", value]) ++ operands) =
      some ⟨(if recursive then [('r', none)] else []) ++ values.map fun value => ('o', some value), operands⟩ := by
  have hoperands : getopt scpOptions operands = some ⟨[], operands⟩ := by
    cases operands with
    | nil => rfl
    | cons word operands => exact getopt_operands (h word rfl)
  have hvalues : getopt scpOptions (values.flatMap (fun value => ["-o", value]) ++ operands) =
      some ⟨values.map fun value => ('o', some value), operands⟩ := by
    induction values with
    | nil => exact hoperands
    | cons value values ih =>
      rw [List.flatMap_cons, List.append_assoc, List.cons_append, List.singleton_append,
        getopt_value (c := 'o') (by decide) (by decide) (by decide), ih]
      rfl
  cases recursive with
  | false => exact hvalues
  | true =>
    rw [if_pos rfl, List.singleton_append, List.cons_append, getopt_flag (c := 'r') (by decide) (by decide) (by decide),
      hvalues]
    rfl

/-- The text of an operand. -/
def CpOperand.text (name user : String) : CpOperand → String
  | .localPath path => escapeLocalCpOperand path
  | .remote _ path => user ++ "@firestone." ++ name ++ ":" ++ path

theorem renderCpOperand_eq (operand : CpOperand) (name user : String) :
    renderCpOperand operand name user = .ofString (operand.text name user) := by
  cases operand <;> rfl

theorem scpCommandPlan_ok {host : CpHost} {executable : OsString} {name user : String} {recursive : Bool}
    {source target : CpOperand} {plan : SshCommandPlan}
    (h : host.scpCommandPlan executable name user recursive source target = .ok plan) :
    validateGuestUser user = .ok () ∧ ∃ values : List String,
      plan.args = ((if recursive then ["-r"] else []) ++ values.flatMap (fun value => ["-o", value]) ++
        [source.text name user, target.text name user]).map OsString.ofString := by
  obtain ⟨⟨⟩, huser, h⟩ := Res.bind_ok h
  obtain ⟨options, hoptions, h⟩ := Res.bind_ok h
  obtain ⟨identity, -, hoptions⟩ := Res.bind_ok hoptions
  obtain ⟨knownHosts, -, hoptions⟩ := Res.bind_ok hoptions
  obtain ⟨proxy, -, hoptions⟩ := Res.bind_ok hoptions
  obtain ⟨identityWord, -, hoptions⟩ := Res.bind_ok hoptions
  obtain ⟨knownHostsWord, -, hoptions⟩ := Res.bind_ok hoptions
  cases h
  cases hoptions
  refine ⟨huser, ["ProxyCommand=" ++ proxy, "IdentityFile=" ++ identityWord, "IdentitiesOnly=yes",
    "UserKnownHostsFile=" ++ knownHostsWord, "StrictHostKeyChecking=accept-new", "LogLevel=ERROR"], ?_⟩
  rw [renderCpOperand_eq, renderCpOperand_eq]
  cases recursive <;> rfl

theorem mapM_cpArgument (texts : List String) : (texts.map OsString.ofString).mapM cpArgument = .ok texts := by
  have hall : ∀ s : String, cpArgument (.ofString s) = .ok s := fun s => by rw [cpArgument, OsString.toStr_ofString]
  rw [List.mapM_map]
  simp only [Function.comp_def, hall]
  exact (List.mapM_pure (f := id)).trans (by rw [List.map_id]; rfl)

/-- A plan is made for one machine, and its operands come last. -/
theorem cpPlan_ok {host : CpHost} {source target : String} {recursive : Bool} {result : CpResult}
    (h : host.cpPlan source target recursive = .ok result) : ∃ operands, classifyCpOperands source target = .ok operands ∧
    validateGuestUser result.user = .ok () ∧ ∃ values : List String, result.args = (if recursive then ["-r"] else []) ++
      values.flatMap (fun value => ["-o", value]) ++
        [operands.source.text operands.machine result.user, operands.target.text operands.machine result.user] := by
  obtain ⟨operands, hoperands, h⟩ := Res.bind_ok h
  obtain ⟨machine, -, h⟩ := Res.bind_ok h
  split at h
  · cases h
  · obtain ⟨program, -, h⟩ := Res.bind_ok h
    obtain ⟨plan, hplan, h⟩ := Res.bind_ok h
    obtain ⟨name, -, h⟩ := Res.bind_ok h
    obtain ⟨args, hargs, h⟩ := Res.bind_ok h
    cases h
    obtain ⟨huser, values, hplanned⟩ := scpCommandPlan_ok hplan
    rw [hplanned, mapM_cpArgument] at hargs
    cases hargs
    exact ⟨operands, hoperands, huser, values, rfl⟩

/-- Characters of a login name. -/
theorem user_chars {user : String} (h : validateGuestUser user = .ok ()) :
    user ≠ "" ∧ user.toList.head? ≠ some '-' ∧ ∀ c ∈ user.toList, isUserChar c = true := by
  unfold validateGuestUser at h
  split at h
  · rename_i hvalid
    rw [Bool.and_eq_true] at hvalid
    obtain ⟨hfirst, hrest⟩ := hvalid
    cases hchars : user.toList with
    | nil =>
      rw [hchars] at hfirst
      cases hfirst
    | cons c rest =>
      rw [hchars] at hfirst hrest
      refine ⟨?_, ?_, ?_⟩
      · rintro rfl
        cases hchars
      · intro hc
        cases hc
        cases hfirst
      · refine List.forall_mem_cons.mpr ⟨?_, List.all_eq_true.mp hrest⟩
        simp only [List.head?_cons, Option.any_some, isUserStart, Bool.or_eq_true] at hfirst
        rcases hfirst with hlower | hunderscore
        · simp [isUserChar, hlower]
        · simp [isUserChar, hunderscore]
  · cases h

theorem machine_of_classify {value machine path : String} (h : classifyCpOperand value = .remote machine path) :
    isMachineOperand machine = true ∧ value.toList = machine.toList ++ ':' :: path.toList := by
  unfold classifyCpOperand at h
  split at h
  · rename_i hsplit
    split at h
    · cases h
      exact ⟨‹_›, eq_of_splitOnce hsplit⟩
    · cases h
  · cases h

/-- The copy command makes of an operand what it is to make of it. -/
theorem readOperand_text {user : String} (huser : validateGuestUser user = .ok ()) :
    ∀ {operand : CpOperand} {machine : String}, (∀ m ∈ operand.machine?, m = machine ∧ isMachineOperand m = true) →
      readOperand "scp" (operand.text machine user) = operand.asRead user
  | .localPath path, machine, _ => readOperand_file (escapeLocalCpOperand_noHost path) (by decide)
  | .remote name path, machine, h => by
    obtain ⟨rfl, hname⟩ := h name rfl
    obtain ⟨hne, -, hchars⟩ := user_chars huser
    rw [isMachineOperand, Bool.and_eq_true, List.all_eq_true] at hname
    have hclean : ∀ c ∈ ("firestone." ++ name).toList, c ∉ [':', '/', '[', ']', '@'] := by
      intro c hc hmem
      rw [String.toList_append, List.mem_append] at hc
      rcases hc with hc | hc
      · exact absurd hmem ((forall_mem_of_all (by decide) : ∀ x ∈ "firestone.".toList, x ∉ [':', '/', '[', ']', '@']) c hc)
      · have hnot := (forall_mem_of_all (by decide) : ∀ x ∈ [':', '/', '[', ']', '@'], isMachineChar x = false) c hmem
        rw [hname.2 c hc] at hnot
        cases hnot
    have haccount : ∀ c ∈ (user ++ "@" ++ ("firestone." ++ name)).toList, c ∉ [':', '/', '[', ']'] := by
      intro c hc hmem
      rw [String.toList_append, String.toList_append, List.mem_append, List.mem_append] at hc
      rcases hc with (hc | hc) | hc
      · have hnot := (forall_mem_of_all (by decide) : ∀ x ∈ [':', '/', '[', ']'], isUserChar x = false) c hmem
        rw [hchars c hc] at hnot
        cases hnot
      · exact absurd hmem ((forall_mem_of_all (by decide) : ∀ x ∈ "@".toList, x ∉ [':', '/', '[', ']']) c hc)
      · exact hclean c hc (List.mem_append_left ['@'] hmem)
    have htext : CpOperand.text name user (.remote name path) = user ++ "@" ++ ("firestone." ++ name) ++ ":" ++ path := by
      rw [CpOperand.text, ← String.append_assoc]
      refine congrArg (· ++ name ++ ":" ++ path) ?_
      rw [String.append_assoc]
      rfl
    rw [htext, readOperand_host hne]
    · rfl
    · intro c hc
      simpa using haccount c hc
    · exact fun hat => hclean '@' hat (by decide)
    · decide

/-- A machine's name is fit to be one, and the other operand has none. -/
theorem classifyCpOperands_ok {source target : String} {operands : CpOperands}
    (h : classifyCpOperands source target = .ok operands) :
    operands.source = classifyCpOperand source ∧ operands.target = classifyCpOperand target ∧
      (∀ m ∈ operands.source.machine?, m = operands.machine ∧ isMachineOperand m = true) ∧
      (∀ m ∈ operands.target.machine?, m = operands.machine ∧ isMachineOperand m = true) := by
  unfold classifyCpOperands at h
  split at h
  · rename_i machine path value hsource htarget
    cases h
    refine ⟨hsource.symm, htarget.symm, ?_, by rintro m ⟨⟩⟩
    rintro m ⟨⟩
    exact ⟨rfl, (machine_of_classify hsource).1⟩
  · rename_i value machine path hsource htarget
    cases h
    refine ⟨hsource.symm, htarget.symm, by rintro m ⟨⟩, ?_⟩
    rintro m ⟨⟩
    exact ⟨rfl, (machine_of_classify htarget).1⟩
  · cases h
  · cases h

/-- The first operand is no option: a login name has no dash in front, and neither has a path that is escaped. -/
theorem optionLetters_text {value name user : String} (huser : validateGuestUser user = .ok ())
    (h : optionLetters value = none ∨ ':' ∈ value.toList.takeWhile (· ≠ '/')) :
    optionLetters ((classifyCpOperand value).text name user) = none := by
  have hdash : ∀ s : String, s.toList.head? ≠ some '-' → optionLetters s = none := by
    intro s hs
    unfold optionLetters
    split
    · rename_i hlist
      exact absurd (congrArg List.head? hlist) hs
    · rfl
  cases hclass : classifyCpOperand value with
  | remote machine path =>
    obtain ⟨hne, hhead, -⟩ := user_chars huser
    refine hdash _ ?_
    cases hlist : user.toList with
    | nil => exact absurd (String.toList_eq_nil_iff.mp hlist) hne
    | cons c rest =>
      rw [hlist] at hhead
      simpa [CpOperand.text, String.toList_append, hlist] using hhead
  | localPath path =>
    have hpath : path = value := by
      unfold classifyCpOperand at hclass
      split at hclass
      · split at hclass
        · cases hclass
        · cases hclass
          rfl
      · cases hclass
        rfl
    subst hpath
    rw [CpOperand.text, escapeLocalCpOperand_eq]
    split
    · exact hdash _ (by simp [String.toList_append])
    · rename_i hcolon
      exact h.resolve_right hcolon

/-- What `scp` makes of its arguments. -/
def readScp (args : List String) : Option (List (Char × Option String) × List ReadOperand) :=
  (getopt scpOptions args).map fun r => (r.options, r.operands.map (readOperand "scp"))

theorem readScp_cpPlan {host : CpHost} {source target : String} {recursive : Bool} {result : CpResult}
    (h : host.cpPlan source target recursive = .ok result)
    (hsource : optionLetters source = none ∨ ':' ∈ source.toList.takeWhile (· ≠ '/')) :
    ∃ operands, ∃ values : List String, classifyCpOperands source target = .ok operands ∧
      readScp result.args = some ((if recursive then [('r', none)] else []) ++ values.map fun value => ('o', some value),
        [operands.source.asRead result.user, operands.target.asRead result.user]) := by
  obtain ⟨operands, hoperands, huser, values, hargs⟩ := cpPlan_ok h
  obtain ⟨hs, ht, hsmachine, htmachine⟩ := classifyCpOperands_ok hoperands
  refine ⟨operands, values, hoperands, ?_⟩
  have hfirst : ∀ word ∈ [operands.source.text operands.machine result.user,
      operands.target.text operands.machine result.user].head?, optionLetters word = none := by
    rintro word ⟨⟩
    rw [hs]
    exact optionLetters_text huser hsource
  rw [readScp, hargs, getopt_scp recursive values hfirst, Option.map_some, List.map_cons, List.map_cons, List.map_nil,
    readOperand_text huser hsmachine, readOperand_text huser htmachine]

/-- A name in front of a colon is taken for a machine's exactly when its characters are those of an operand. -/
theorem classifyCpOperand_machine (n p : String) :
    classifyCpOperand (n ++ ":" ++ p) = .remote n p ↔ isMachineOperand n = true := by
  refine ⟨fun h => (machine_of_classify h).1, fun h => ?_⟩
  have hcolon : ':' ∉ n.toList := by
    intro hc
    rw [isMachineOperand, Bool.and_eq_true, List.all_eq_true] at h
    exact absurd (h.2 ':' hc) (by decide)
  have htext : n ++ ":" ++ p = String.ofList (n.toList ++ ':' :: p.toList) := by
    rw [← String.toList_inj]
    simp [String.toList_append]
  rw [classifyCpOperand, htext, splitOnce_append hcolon, String.ofList_toList, String.ofList_toList]
  simp only [h, if_true]

/-- Operands of a copy mean the same to the copy command: a local path names the same file and no host, and when the source
is not read as options, the plan has its two operands, one of them on the machine. The operand `n:p` is the path `p` of
machine `n` exactly when `n` has only lowercase letters, digits and dashes. -/
theorem cp_operands_read :
    (∀ path, ':' ∉ (escapeLocalCpOperand path).toList.takeWhile (· ≠ '/') ∧ ∀ cwd, isAbsolute cwd = true →
      pathComponents (joinPath cwd (.ofString (escapeLocalCpOperand path))) = pathComponents (joinPath cwd (.ofString path))) ∧
    (∀ (host : CpHost) (source target : String) (recursive : Bool) (result : CpResult),
      host.cpPlan source target recursive = .ok result →
      (optionLetters source = none ∨ ':' ∈ source.toList.takeWhile (· ≠ '/')) →
      ∃ operands, ∃ values : List String, classifyCpOperands source target = .ok operands ∧
        operands.source.machine?.isSome ≠ operands.target.machine?.isSome ∧
        readScp result.args = some ((if recursive then [('r', none)] else []) ++ values.map fun value => ('o', some value),
          [operands.source.asRead result.user, operands.target.asRead result.user])) ∧
    (∀ n p, classifyCpOperand (n ++ ":" ++ p) = .remote n p ↔ isMachineOperand n = true) := by
  refine ⟨fun path => ⟨escapeLocalCpOperand_noHost path, fun cwd => escapeLocalCpOperand_same path⟩, ?_,
    classifyCpOperand_machine⟩
  intro host source target recursive result hplan hsource
  obtain ⟨operands, values, hoperands, hread⟩ := readScp_cpPlan hplan hsource
  refine ⟨operands, values, hoperands, ?_, hread⟩
  have hone := operands.exactlyOne
  cases hs : operands.source.machine? <;> cases ht : operands.target.machine? <;> simp [hs, ht] at hone ⊢

/-- A host with one machine that is running. -/
def oneMachine : CpHost where
  configDir := .ofString "/c"
  dataDir := .ofString "/d"
  runtimeDir := .ofString "/r"
  shimProgram := .ok (.ofString "/f")
  ensureSshIdentity := .ok (.ofString "/d/key")
  machineKnownHostsPath := fun name => .ok (.ofString ("/d/" ++ name))
  terminalMachine := fun _ => .ok ⟨.running, "root"⟩

set_option maxRecDepth 2000 in
/-- A copy from the machine to a file with a colon in its name. -/
theorem cp_operands_read_colon : ∃ result, oneMachine.cpPlan "demo:/etc/hostname" "Host:name" true = .ok result ∧
    ∃ operands, ∃ values : List String, classifyCpOperands "demo:/etc/hostname" "Host:name" = .ok operands ∧
      operands.source.machine?.isSome ≠ operands.target.machine?.isSome ∧
      readScp result.args = some ([('r', none)] ++ values.map fun value => ('o', some value),
        [operands.source.asRead result.user, operands.target.asRead result.user]) := by
  obtain ⟨result, hresult⟩ : ∃ result, oneMachine.cpPlan "demo:/etc/hostname" "Host:name" true = .ok result :=
    Res.exists_ok (by decide)
  exact ⟨result, hresult, cp_operands_read.2.1 _ _ _ _ _ hresult (.inr (by decide))⟩

/-- A name that is accepted, and derived from an image, but is no machine's name in an operand; and a local path that the
copy command would take for an option. -/
theorem classifyCpOperand_uppercase :
    (Paths.ofHome ["home"]).machineDir "Dev" = .ok ["home", "data", "machines", "Dev"] ∧
    deriveMachineName "Dev:1" = .ok "Dev" ∧ classifyCpOperand ("Dev" ++ ":" ++ "/etc") = .localPath "Dev:/etc" ∧
    classifyCpOperand "-q" = .localPath "-q" ∧ escapeLocalCpOperand "-q" = "-q" ∧ optionLetters "-q" = some ['q'] := by
  decide

end Firestone.Ssh
