import Firestone.Error
import Firestone.Lib.OsPath
import Firestone.Lib.ShellWords

/-!
# The proxy command

SSH reaches a machine through a command that OpenSSH gives to a shell: `env` sets the directories, and this executable
connects to the machine. Paths and the machine's name are quoted on the way, for OpenSSH and for the shell.

* `shellWord`, `proxyCommand` — a word, and the command.
* `rawWord_spells` — a word is read as what it was.
* `execProxy` — what OpenSSH runs for a command.
* `proxyCommand_quotes` — words and commands are read as they were meant; `env` runs the executable when there is no
  equals sign in its path.
-/

namespace Firestone.Ssh

open Firestone.Lib

/-! ## Words -/

/-- Characters that need no quotes. -/
def isPlainChar (c : Char) : Bool := c.isAlphanum || "/_-.+:".toList.contains c

def shellWord (value : OsString) (label : String) : Res String :=
  match value.toStr with
  | none => .error ((FirestoneError.new .dependency (label ++ " cannot be represented in an OpenSSH ProxyCommand")).withHint
      "install Firestone at a UTF-8 path")
  | some value =>
    let value := doublePercents value.toList
    if value ≠ [] ∧ value.all isPlainChar then .ok (String.ofList value)
    else .ok (String.ofList (quoteSingle value))

/-- The word as the shell gets it, when OpenSSH has replaced the percent signs. -/
def rawWord (word : List Char) : List Char := if word ≠ [] ∧ word.all isPlainChar then word else quoteSingle word

theorem isOrdinary_of_isPlainChar {c : Char} (h : isPlainChar c = true) : isOrdinary c = true := by
  by_contra hc
  have hmem : c ∈ [' ', '\t', '\'', '"', '\\'] ++ "|&;<>()$`*?[#~\n".toList ++ [nul] := by
    simp only [isOrdinary, isShellSpecial, Bool.not_eq_true, Bool.and_eq_false_iff, decide_eq_false_iff_not, not_not,
      Bool.not_eq_false', Bool.or_eq_true, List.contains_iff_mem, decide_eq_true_eq] at hc
    simp only [List.mem_append, List.mem_cons, List.not_mem_nil, or_false]
    tauto
  have hnone : ∀ x ∈ [' ', '\t', '\'', '"', '\\'] ++ "|&;<>()$`*?[#~\n".toList ++ [nul], isPlainChar x = false :=
    forall_mem_of_all (by decide)
  rw [hnone c hmem] at h
  cases h

theorem rawWord_spells {word : List Char} (h : nul ∉ word) : Spells (rawWord word) word := by
  rw [rawWord]
  split
  · rename_i hplain
    exact .of_ordinary hplain.1 fun c hc => isOrdinary_of_isPlainChar (List.all_eq_true.mp hplain.2 c hc)
  · exact .quoteSingle h

/-- A percent sign is not plain, so that doubling changes no plain word and quotes come to the same words. -/
theorem shellWord_ofString (word label : String) :
    shellWord (.ofString word) label = .ok (String.ofList (doublePercents (rawWord word.toList))) := by
  have hplain : (doublePercents word.toList ≠ [] ∧ (doublePercents word.toList).all isPlainChar = true) ↔
      (word.toList ≠ [] ∧ word.toList.all isPlainChar = true) := by
    simp only [ne_eq, List.eq_nil_iff_forall_not_mem, List.all_eq_true, mem_doublePercents]
  simp only [shellWord, OsString.toStr_ofString, rawWord]
  by_cases h : word.toList ≠ [] ∧ word.toList.all isPlainChar = true
  · rw [if_pos h, if_pos (hplain.mpr h)]
  · rw [if_neg h, if_neg fun hd => h (hplain.mp hd), doublePercents_quoteSingle]

/-! ## The command -/

/-- The command for a machine. -/
def proxyCommand (configDir dataDir runtimeDir currentExecutable : OsString) (name : String) : Res String := do
  let config ← shellWord configDir "Firestone config directory"
  let data ← shellWord dataDir "Firestone data directory"
  let runtime ← shellWord runtimeDir "Firestone runtime directory"
  let executable ← shellWord currentExecutable "firestone executable"
  let name ← shellWord (.ofString name) "machine name"
  .ok ("env FIRESTONE_CONFIG_DIR=" ++ config ++ " FIRESTONE_DATA_DIR=" ++ data ++ " FIRESTONE_RUNTIME_DIR=" ++ runtime ++
    " " ++ executable ++ " _vsock-proxy " ++ name ++ " 22")

/-- What OpenSSH runs for a line: tokens are replaced, and a shell is told to `exec` the rest. -/
def execProxy (tokens : Char → Option (List Char)) (line : String) : Option EnvCommand := do
  let line ← percentExpand tokens ("exec ".toList ++ line.toList)
  match ← splitWords line with
  | exec :: env :: operands =>
    if exec = "exec".toList ∧ env = "env".toList then envCommand (operands.map String.ofList) else none
  | _ => none

/-- The words of the command, as the shell gets them. -/
def rawWords (config data runtime executable name : String) : List (List Char) :=
  ["exec".toList, "env".toList, "FIRESTONE_CONFIG_DIR=".toList ++ rawWord config.toList,
    "FIRESTONE_DATA_DIR=".toList ++ rawWord data.toList, "FIRESTONE_RUNTIME_DIR=".toList ++ rawWord runtime.toList,
    rawWord executable.toList, "_vsock-proxy".toList, rawWord name.toList, "22".toList]

/-- The words of the command, as they were meant. -/
def proxyWords (config data runtime executable name : String) : List (List Char) :=
  ["exec".toList, "env".toList, "FIRESTONE_CONFIG_DIR=".toList ++ config.toList,
    "FIRESTONE_DATA_DIR=".toList ++ data.toList, "FIRESTONE_RUNTIME_DIR=".toList ++ runtime.toList,
    executable.toList, "_vsock-proxy".toList, name.toList, "22".toList]

/-- With `exec` in front, the command is the doubled text of its words. -/
theorem proxyCommand_eq (config data runtime executable name : String) : ∃ line : String,
    proxyCommand (.ofString config) (.ofString data) (.ofString runtime) (.ofString executable) name = .ok line ∧
    "exec ".toList ++ line.toList = doublePercents ([' '].intercalate (rawWords config data runtime executable name)) := by
  refine ⟨_, by simp only [proxyCommand, shellWord_ofString]; rfl, ?_⟩
  simp only [String.toList_append, String.toList_ofList, rawWords, List.intercalate_cons_cons, List.intercalate_singleton,
    doublePercents_append]
  simp [doublePercents, replaceChar]

theorem proxyWords_spelled {config data runtime executable name : String} (hconfig : nul ∉ config.toList)
    (hdata : nul ∉ data.toList) (hruntime : nul ∉ runtime.toList) (hexecutable : nul ∉ executable.toList)
    (hname : nul ∉ name.toList) :
    List.Forall₂ Spells (rawWords config data runtime executable name) (proxyWords config data runtime executable name) := by
  have hplain : ∀ s : String, s.toList ≠ [] → (s.toList.all isOrdinary) = true → Spells s.toList s.toList :=
    fun s hs h => .of_ordinary hs (List.all_eq_true.mp h)
  refine .cons (hplain _ (by decide) (by decide)) (.cons (hplain _ (by decide) (by decide)) (.cons ?_ (.cons ?_
    (.cons ?_ (.cons (rawWord_spells hexecutable) (.cons (hplain _ (by decide) (by decide))
      (.cons (rawWord_spells hname) (.cons (hplain _ (by decide) (by decide)) .nil))))))))
  · exact (hplain _ (by decide) (by decide)).append (rawWord_spells hconfig)
  · exact (hplain _ (by decide) (by decide)).append (rawWord_spells hdata)
  · exact (hplain _ (by decide) (by decide)).append (rawWord_spells hruntime)

/-- What is run for the command is what `env` makes of its operands. -/
theorem execProxy_eq (tokens : Char → Option (List Char)) (config data runtime executable name : String)
    (hconfig : nul ∉ config.toList) (hdata : nul ∉ data.toList) (hruntime : nul ∉ runtime.toList)
    (hexecutable : nul ∉ executable.toList) (hname : nul ∉ name.toList) :
    ∃ line, proxyCommand (.ofString config) (.ofString data) (.ofString runtime) (.ofString executable) name = .ok line ∧
      execProxy tokens line = (envOperands [executable, "_vsock-proxy", name, "22"]).map fun run =>
        { run with assignments := ("FIRESTONE_CONFIG_DIR", config) :: ("FIRESTONE_DATA_DIR", data) ::
          ("FIRESTONE_RUNTIME_DIR", runtime) :: run.assignments } := by
  obtain ⟨line, hline, htext⟩ := proxyCommand_eq config data runtime executable name
  refine ⟨line, hline, ?_⟩
  have hsplit := splitWords_join (proxyWords_spelled hconfig hdata hruntime hexecutable hname)
  have hassign : ∀ (key : String) (value : String) (rest : List String), key ≠ "" → '=' ∉ key.toList →
      envOperands (String.ofList (key.toList ++ '=' :: value.toList) :: rest) = (envOperands rest).map fun run =>
        { run with assignments := (key, value) :: run.assignments } := by
    intro key value rest hne hkey
    rw [envOperands_assignment (fun hnil => hne (String.toList_eq_nil_iff.mp hnil)) hkey, String.ofList_toList,
      String.ofList_toList]
  have hoperands : ∀ rest, envCommand (String.ofList ("FIRESTONE_CONFIG_DIR".toList ++ '=' :: config.toList) :: rest) =
      envOperands (String.ofList ("FIRESTONE_CONFIG_DIR".toList ++ '=' :: config.toList) :: rest) := by
    intro rest
    rw [envCommand, List.head?_cons, Option.any_some, String.toList_ofList]
    rfl
  rw [execProxy, htext, percentExpand_double, Option.bind_eq_bind, Option.bind_some, hsplit]
  calc envCommand ((proxyWords config data runtime executable name).tail.tail.map String.ofList)
      = envOperands (String.ofList ("FIRESTONE_CONFIG_DIR".toList ++ '=' :: config.toList) ::
          String.ofList ("FIRESTONE_DATA_DIR".toList ++ '=' :: data.toList) ::
          String.ofList ("FIRESTONE_RUNTIME_DIR".toList ++ '=' :: runtime.toList) ::
          [executable, "_vsock-proxy", name, "22"]) := by
        rw [← hoperands]
        simp [proxyWords]
    _ = _ := by
        rw [hassign _ _ _ (by decide) (by decide), hassign _ _ _ (by decide) (by decide),
          hassign _ _ _ (by decide) (by decide), Option.map_map, Option.map_map]
        rfl

/-- Words are quoted so that they are read as they were. In the proxy command `env` takes an executable with an equals sign
in its path for one more assignment, and runs it otherwise. -/
theorem proxyCommand_quotes (tokens : Char → Option (List Char)) :
    (∀ (label : String) (words : List String), (∀ word ∈ words, nul ∉ word.toList) →
      ∃ texts, words.mapM (fun word => shellWord (.ofString word) label) = .ok texts ∧
        (percentExpand tokens ([' '].intercalate (texts.map String.toList))).bind splitWords =
          some (words.map String.toList)) ∧
    (∀ (config data runtime executable name : String), nul ∉ config.toList →
      nul ∉ data.toList → nul ∉ runtime.toList → nul ∉ executable.toList → nul ∉ name.toList →
      ∃ line, proxyCommand (.ofString config) (.ofString data) (.ofString runtime) (.ofString executable) name = .ok line ∧
        (execProxy tokens line = some ⟨[("FIRESTONE_CONFIG_DIR", config), ("FIRESTONE_DATA_DIR", data),
            ("FIRESTONE_RUNTIME_DIR", runtime)], [executable, "_vsock-proxy", name, "22"]⟩ ↔ '=' ∉ executable.toList)) := by
  refine ⟨?_, ?_⟩
  · intro label words hwords
    refine ⟨words.map fun word => String.ofList (doublePercents (rawWord word.toList)), ?_, ?_⟩
    · simp only [shellWord_ofString]
      exact List.mapM_pure
    · have htexts : (words.map fun word => String.ofList (doublePercents (rawWord word.toList))).map String.toList =
          (words.map fun word => rawWord word.toList).map doublePercents := by
        simp only [List.map_map, Function.comp_def, String.toList_ofList]
      have hspells : List.Forall₂ Spells (words.map fun word => rawWord word.toList) (words.map String.toList) := by
        rw [List.forall₂_map_left_iff, List.forall₂_map_right_iff, List.forall₂_same]
        exact fun word hword => rawWord_spells (hwords word hword)
      rw [htexts, ← doublePercents_join, percentExpand_double, Option.bind_some, splitWords_join hspells]
  · intro config data runtime executable name hconfig hdata hruntime hexecutable hname
    obtain ⟨line, hline, hrun⟩ :=
      execProxy_eq tokens config data runtime executable name hconfig hdata hruntime hexecutable hname
    refine ⟨line, hline, ?_⟩
    rw [hrun]
    refine ⟨fun h hequals => ?_, fun h => by rw [envOperands_command h]; rfl⟩
    obtain ⟨run, hoperands, hfields⟩ := Option.map_eq_some_iff.mp h
    rw [EnvCommand.mk.injEq] at hfields
    refine command_ne_of_assignment hequals hoperands ?_
    simpa using hfields.1

/-- A space, a quote and a percent sign in the paths. -/
theorem proxyCommand_quotes_home :
    (∃ texts, ["", "it's 100% $HOME\n"].mapM (fun word => shellWord (.ofString word) "machine name") = .ok texts ∧
      (percentExpand (fun _ => none) ([' '].intercalate (texts.map String.toList))).bind splitWords =
        some (["", "it's 100% $HOME\n"].map String.toList)) ∧
    ∃ line, proxyCommand (.ofString "/home/my files/cfg") (.ofString "/data%h") (.ofString "/run/it's")
        (.ofString "/usr/bin/firestone") "demo" = .ok line ∧
      (execProxy (fun _ => none) line = some ⟨[("FIRESTONE_CONFIG_DIR", "/home/my files/cfg"),
          ("FIRESTONE_DATA_DIR", "/data%h"), ("FIRESTONE_RUNTIME_DIR", "/run/it's")],
          ["/usr/bin/firestone", "_vsock-proxy", "demo", "22"]⟩ ↔ '=' ∉ "/usr/bin/firestone".toList) :=
  ⟨(proxyCommand_quotes _).1 _ _ (by decide),
    (proxyCommand_quotes _).2 _ _ _ _ _ (by decide) (by decide) (by decide) (by decide) (by decide)⟩

/-- An executable below a directory with an equals sign: `env` sets a variable and runs `_vsock-proxy`. -/
theorem proxyCommand_assigns_executable :
    ∃ line, proxyCommand (.ofString "/c") (.ofString "/d") (.ofString "/r") (.ofString "/opt/v=1/firestone") "demo" =
        .ok line ∧
      execProxy (fun _ => none) line = some ⟨[("FIRESTONE_CONFIG_DIR", "/c"), ("FIRESTONE_DATA_DIR", "/d"),
        ("FIRESTONE_RUNTIME_DIR", "/r"), ("/opt/v", "1/firestone")], ["_vsock-proxy", "demo", "22"]⟩ := by
  obtain ⟨line, hline, hrun⟩ := execProxy_eq (fun _ => none) "/c" "/d" "/r" "/opt/v=1/firestone" "demo" (by decide)
    (by decide) (by decide) (by decide) (by decide)
  refine ⟨line, hline, ?_⟩
  rw [hrun]
  decide

end Firestone.Ssh
