import JanaExtensions.ConfigLayers
import JanaExtensions.Grouping
import JanaExtensions.Separated

/-! The wrapper script that starts JANA. It merges the plugins of the core file, of the directories
that the environment names and of the command line into one list, in which `evio_parser` comes
first. -/

namespace JanaExtensions

namespace PluginWrapper

open Separated

/-- Variables that are not set are empty. -/
structure Environment extends ConfigTree where
  jceHome : String
  janaHome : String
  janaPluginPath : String
  isExecutable : String → Bool
  janaInPath : Bool
  standardInput : String
  /-- What awk prints of the standard input when its operand is an assignment, none if it fails. The
  variable may be one that awk itself uses. -/
  awkAssigned : String → String → Option String

structure Arguments where
  passthroughArgs : List String := []
  inputPlugins : String := ""
  cliPluginPath : String := ""
  cliDefaultPluginsFile : String := ""
  coreConfigDir : String := ""
  deriving DecidableEq, Repr

def startsWith (option arg : String) : Bool := option.toList.isPrefixOf arg.toList

/-- The expansion `${arg#option}`. -/
def without (option arg : String) : String :=
  if startsWith option arg then String.ofList (arg.toList.drop option.toList.length) else arg

def pluginsOption : String := "-Pplugins="

def pluginPathOption : String := "-Pjana:plugin_path="

def coreConfigDirOption : String := "-PJCE:CORE_CONFIG_DIR="

def defaultPluginsOption : String := "-PDEFAULT_PLUGINS:FILE="

def readArgument (a : Arguments) (arg : String) : Arguments :=
  if startsWith pluginsOption arg then { a with inputPlugins := arg }
  else if startsWith pluginPathOption arg then { a with cliPluginPath := arg }
  else if startsWith coreConfigDirOption arg then
    { a with
      coreConfigDir := without coreConfigDirOption arg
      passthroughArgs := a.passthroughArgs ++ [arg] }
  else if startsWith defaultPluginsOption arg then { a with cliDefaultPluginsFile := arg }
  else { a with passthroughArgs := a.passthroughArgs ++ [arg] }

def readArguments (args : List String) : Arguments := args.foldl readArgument {}

/-- A command substitution leaves out the newlines at the end. -/
def substitute (output : List Char) : String :=
  String.ofList (output.reverse.dropWhile (· = '\n')).reverse

def isComment (line : List Char) : Bool := (line.dropWhile isSpace).head? == some '#'

def readPlugins (content : FileContent) : String :=
  let rows := (getLines content.text.toList).filter fun line => !isComment line
  let printed := (rows.map (clean isSpace)).filter fun row => !row.isEmpty
  substitute (printed.flatMap fun row => row ++ ['\n'])

def isVariable : List Char → Bool
  | [] => false
  | c :: cs => (c.isAlpha || c = '_') && cs.all fun d => d.isAlphanum || d = '_'

/-- An operand of awk that is a variable with `=` and a value behind it names no file. -/
def isAssignment (operand : String) : Bool :=
  operand.toList.contains '=' && isVariable (operand.toList.takeWhile (· ≠ '='))

/-- The plugins that awk prints, none if it fails, and what it leaves of the standard input. It
reads the standard input when its operand is `-` or an assignment. -/
def readOperand (env : Environment) (input operand : String) : Option (String × String) :=
  if operand = "-" then some (readPlugins ⟨input, true⟩, "")
  else if isAssignment operand then
    (env.awkAssigned operand input).map fun printed => (substitute printed.toList, "")
  else
    ((env.read operand).filter fun content => content.eof).map fun content =>
      (readPlugins content, input)

/-- Why the script stops: with a message of its own, or because awk fails. -/
inductive Stop where
  | error (message : String)
  | awk (operand : String)
  deriving DecidableEq, Repr

def readPluginsFile (env : Environment) (input file : String) : Except Stop (String × String) :=
  match readOperand env input file with
  | none => .error (.awk file)
  | some read => .ok read

def defaultPluginsFile (env : Environment) (a : Arguments) : String :=
  if a.cliDefaultPluginsFile ≠ "" then without defaultPluginsOption a.cliDefaultPluginsFile
  else
    (if a.coreConfigDir ≠ "" then a.coreConfigDir else env.jceHome ++ "/config") ++
      "/default_plugins.db"

def fallbackPlugins : String := "evio_parser,evio_common_modules,detector_translation"

def warning (text : String) : String := "jce.sh warning: " ++ text

/-- How far the merging of the layers has come. -/
structure Layers where
  pluginLists : List String
  warnings : List String
  /-- What is left of the standard input. -/
  input : String
  deriving DecidableEq, Repr

/-- The core layer. A file with nothing but commas counts as empty. -/
def corePlugins (env : Environment) (a : Arguments) : Except Stop Layers := do
  let file := defaultPluginsFile env a
  let (plugins, warnings, input) ←
    if env.isRegularFile file then
      (readPluginsFile env env.standardInput file).map fun (plugins, input) => (plugins, [], input)
    else
      .ok ("", [warning ("default plugins file not found: " ++ file ++ "; using core fallback")],
        env.standardInput)
  let plugins := if plugins.toList.all (· = ',') then fallbackPlugins else plugins
  .ok ⟨["evio_parser", plugins], warnings, input⟩

/-- `read` takes the first line only. -/
def configDirs (env : Environment) : List String :=
  ConfigTree.directories (String.ofList ((env.configDir.getD "").toList.takeWhile (· ≠ '\n')))

def addDirectory (env : Environment) (s : Layers) (configDir : String) : Except Stop Layers :=
  if configDir = "" then .ok s
  else if !env.isDirectory configDir then
    .ok { s with
      warnings := s.warnings ++
        [warning ("configuration directory not found: " ++ configDir ++ "; skipping")] }
  else if env.isRegularFile (configDir ++ "/default_plugins.db") then do
    let (plugins, input) ← readPluginsFile env s.input (configDir ++ "/default_plugins.db")
    .ok { s with pluginLists := s.pluginLists ++ [plugins], input }
  else .ok s

/-- The translation of each comma to a newline by `tr`. -/
def translate (text : List Char) : List Char := text.map fun c => if c = ',' then '\n' else c

def addPlugin (seen : List String) (plugin : String) : List String :=
  if plugin ≠ "" ∧ plugin ∉ seen then seen ++ [plugin] else seen

def mergePlugins (lists : List String) : String :=
  let text := lists.flatMap fun list => list.toList ++ ['\n']
  let rows := (getLines (translate text)).map fun row => String.ofList (clean isSpace row)
  ",".intercalate (rows.foldl addPlugin [])

def userPluginPath (env : Environment) (a : Arguments) : Except Stop String :=
  if a.cliPluginPath = "" then .ok env.janaPluginPath
  else if startsWith pluginPathOption a.cliPluginPath then
    .ok (without pluginPathOption a.cliPluginPath)
  else .error (.error ("jce.sh error: invalid plugin path: " ++ a.cliPluginPath))

def finalPluginPath (env : Environment) (userPluginPath : String) : String :=
  let jcePluginDir := env.jceHome ++ "/lib/plugins"
  if userPluginPath ≠ "" then jcePluginDir ++ ":" ++ userPluginPath else jcePluginDir

def janaCmd (env : Environment) : Except Stop String :=
  if env.isExecutable (env.jceHome ++ "/bin/jana") then .ok (env.jceHome ++ "/bin/jana")
  else if env.janaHome ≠ "" ∧ env.isExecutable (env.janaHome ++ "/bin/jana") then
    .ok (env.janaHome ++ "/bin/jana")
  else if env.janaInPath then .ok "jana"
  else
    .error (.error ("jce.sh error: jana not found.\nExpected " ++ env.jceHome ++
      "/bin/jana from the superbuild.\n" ++
      "For a split-prefix manual installation, set JANA_HOME or add jana to PATH."))

/-- The command that is executed, and the variable `JANA_PLUGIN_PATH` that is exported to it. -/
structure Started where
  command : String
  args : List String
  pluginPath : String
  warnings : List String
  deriving DecidableEq, Repr

def run (env : Environment) (args : List String) : Except Stop Started := do
  let a := readArguments args
  if env.jceHome = "" then
    .error (.error "jce.sh error: set JCE_HOME to the root of the JCE installation.")
  else
    let core ← corePlugins env a
    let layers ← (configDirs env).foldlM (addDirectory env) core
    let mergedPlugins := mergePlugins (layers.pluginLists ++ [without pluginsOption a.inputPlugins])
    let userPluginPath ← userPluginPath env a
    let pluginPath := finalPluginPath env userPluginPath
    let command ← janaCmd env
    .ok {
      command
      args := a.passthroughArgs ++
        [pluginsOption ++ mergedPlugins, pluginPathOption ++ pluginPath]
      pluginPath
      warnings := layers.warnings }

def isSeparator (c : Char) : Bool := c = ',' || c = '\n'

/-- The names in a list of plugins, in which commas and newlines separate and other space does not
count. -/
def names (list : String) : List String :=
  (parts isSeparator isSpace list.toList).map String.ofList

section Text

theorem splitOnP_newline (xs : List Char) :
    xs.splitOnP (· = '\n') = getLines xs ∨ xs.splitOnP (· = '\n') = getLines xs ++ [[]] := by
  induction xs with
  | nil => exact .inr rfl
  | cons x xs ih =>
      rw [List.splitOnP_cons_eq_if_modifyHead, getLines]
      by_cases hx : x = '\n'
      · simpa [hx] using ih
      · simp only [hx, decide_false, Bool.false_eq_true, if_false]
        cases hlines : getLines xs with
        | nil =>
            rw [hlines] at ih
            rcases ih with hsplit | hsplit
            · exact absurd hsplit (List.splitOnP_ne_nil _ xs)
            · exact .inl (by rw [hsplit]; rfl)
        | cons line lines =>
            rw [hlines] at ih
            exact ih.imp (fun hsplit => by rw [hsplit]; rfl) (fun hsplit => by rw [hsplit]; rfl)

theorem splitOnP_translate (xs : List Char) :
    (translate xs).splitOnP (· = '\n') = xs.splitOnP isSeparator := by
  induction xs with
  | nil => rfl
  | cons x xs ih =>
      have hcons : translate (x :: xs) = (if x = ',' then '\n' else x) :: translate xs := rfl
      rw [hcons, List.splitOnP_cons_eq_if_modifyHead, List.splitOnP_cons_eq_if_modifyHead, ih]
      by_cases hcomma : x = ','
      · rw [hcomma]
        rfl
      · have hseparator : isSeparator x = decide (x = '\n') := by simp [isSeparator, hcomma]
        rw [if_neg hcomma, hseparator]

theorem filter_map_ofList (rows : List (List Char)) :
    (rows.map String.ofList).filter (· ≠ "") =
      (rows.filter fun row => !row.isEmpty).map String.ofList := by
  rw [List.filter_map]
  congr 1
  apply List.filter_congr
  intro row _
  cases row <;> simp

/-- The rows that awk reads from the translated text, without those that are empty. -/
theorem rows_translate (text : List Char) :
    ((getLines (translate text)).map fun row => String.ofList (clean isSpace row)).filter (· ≠ "") =
      (parts isSeparator isSpace text).map String.ofList := by
  have hrows : (getLines (translate text)).map (fun row => String.ofList (clean isSpace row)) =
      ((getLines (translate text)).map (clean isSpace)).map String.ofList := by
    rw [List.map_map]
    rfl
  rw [hrows, filter_map_ofList, parts, ← splitOnP_translate]
  -- `getLines` has no line behind the last newline, where the cut has an empty part.
  rcases splitOnP_newline (translate text) with hsplit | hsplit
  · rw [hsplit]
  · rw [hsplit]
    simp [clean]

theorem foldl_addPlugin (rows : List String) :
    rows.foldl addPlugin [] = (rows.filter (· ≠ "")).eraseDups := by
  induction rows using List.reverseRecOn with
  | nil => rfl
  | append_singleton rows row ih =>
      rw [List.foldl_append, ih, List.filter_append]
      by_cases hempty : row = ""
      · simp [addPlugin, hempty]
      · have hrow : [row].filter (· ≠ "") = [row] := by simp [hempty]
        rw [hrow, Grouping.eraseDups_concat]
        simp only [List.foldl_cons, List.foldl_nil, addPlugin, List.mem_eraseDups]
        simp [hempty]

theorem mergePlugins_eq (lists : List String) :
    mergePlugins lists = ",".intercalate (lists.flatMap names).eraseDups := by
  have hparts : parts isSeparator isSpace
      ((lists.map String.toList).flatMap fun list => list ++ ['\n']) =
        (lists.map String.toList).flatMap (parts isSeparator isSpace) :=
    parts_flatMap rfl _
  rw [List.flatMap_map, List.flatMap_map] at hparts
  rw [mergePlugins, foldl_addPlugin, rows_translate, hparts, List.map_flatMap]
  rfl

theorem part_of_mem_names {list name : String} (h : name ∈ names list) :
    Part isSeparator isSpace name.toList := by
  obtain ⟨part, hpart, rfl⟩ := List.mem_map.mp h
  rw [String.toList_ofList]
  exact part_of_mem_parts hpart

/-- Names that are joined with commas are read again as they are. -/
theorem names_intercalate {plugins : List String}
    (h : ∀ name ∈ plugins, Part isSeparator isSpace name.toList) :
    names (",".intercalate plugins) = plugins := by
  have hjoined : parts isSeparator isSpace ([','].intercalate (plugins.map String.toList)) =
      plugins.map String.toList := parts_intercalate rfl (by simpa using h)
  have hcomma : (",").toList = [','] := rfl
  rw [names, String.toList_intercalate, hcomma, hjoined, List.map_map]
  simp

/-- The names in the lines of a file that are not comments. -/
def fileNames (content : FileContent) : List String :=
  ((getLines content.text.toList).filter fun line => !isComment line).flatMap fun line =>
    names (String.ofList line)

theorem newline_notMem_getLines (xs : List Char) : ∀ line ∈ getLines xs, '\n' ∉ line := by
  intro line hline hmem
  have hsplit : line ∈ xs.splitOnP (· = '\n') := by
    rcases splitOnP_newline xs with hsplit | hsplit <;> rw [hsplit]
    · exact hline
    · exact List.mem_append_left _ hline
  have hwhole := splitOnP_whole xs line hsplit '\n' hmem
  exact absurd hwhole (by decide)

theorem names_substitute (output : List Char) :
    names (substitute output) = (parts isSeparator isSpace output).map String.ofList := by
  have hsplit : output = (output.reverse.dropWhile (· = '\n')).reverse ++
      (output.reverse.takeWhile (· = '\n')).reverse := by
    rw [← List.reverse_append, List.takeWhile_append_dropWhile, List.reverse_reverse]
  have hnewlines : ∀ c ∈ (output.reverse.takeWhile (· = '\n')).reverse, isSeparator c = true := by
    intro c hc
    have hnewline := List.mem_takeWhile_imp (List.mem_reverse.mp hc)
    rw [of_decide_eq_true hnewline]
    rfl
  rw [names, substitute, String.toList_ofList]
  conv_rhs => rw [hsplit, parts_append_separators _ hnewlines]

theorem names_readPlugins (content : FileContent) :
    names (readPlugins content) = fileNames content := by
  have hprinted (rows : List (List Char)) :
      ((rows.map (clean isSpace)).filter fun row => !row.isEmpty).flatMap
        (parts isSeparator isSpace) =
          rows.flatMap fun row => parts isSeparator isSpace (clean isSpace row) := by
    induction rows with
    | nil => rfl
    | cons row rows ih =>
        rw [List.map_cons, List.filter_cons, List.flatMap_cons]
        split
        · rw [List.flatMap_cons, ih]
        next hempty =>
          have hnil : clean isSpace row = [] := by simpa using hempty
          rw [ih, hnil, parts_nil, List.nil_append]
  rw [readPlugins, names_substitute, parts_flatMap rfl, hprinted, fileNames, List.map_flatMap]
  apply List.flatMap_congr
  intro line hline
  have hnewline := newline_notMem_getLines _ line (List.mem_of_mem_filter hline)
  have hclean : parts isSeparator isSpace (clean isSpace line) = parts isSeparator isSpace line := by
    apply parts_clean
    intro c hc hsep
    have hcomma : c = ',' := by
      by_contra hne
      have : c = '\n' := by simpa [isSeparator, hne] using hsep
      exact hnewline (this ▸ hc)
    rw [hcomma]
    decide
  rw [hclean, names, String.toList_ofList]

end Text

/-- The names that awk prints for an operand, and what is left of the standard input. -/
def operandNames (env : Environment) (input operand : String) : List String × String :=
  if operand = "-" then (fileNames ⟨input, true⟩, "")
  else if isAssignment operand then ((env.awkAssigned operand input).elim [] names, "")
  else ((env.read operand).elim [] fileNames, input)

section Arguments

def isMerged (arg : String) : Bool :=
  startsWith pluginsOption arg || startsWith pluginPathOption arg ||
    startsWith defaultPluginsOption arg

/-- The last argument with the option, which replaces the earlier ones. -/
def lastWith (option : String) (args : List String) : String :=
  ((args.filter (startsWith option)).getLast?).getD ""

theorem startsWith_append (option text : String) : startsWith option (option ++ text) = true := by
  rw [startsWith, String.toList_append, List.isPrefixOf_iff_prefix]
  exact List.prefix_append _ _

theorem without_append (option text : String) : without option (option ++ text) = text := by
  rw [without, if_pos (startsWith_append option text), String.toList_append, List.drop_left,
    String.ofList_toList]

/-- An argument has one of the options at most. -/
theorem startsWith_other {option other arg : String}
    (hapart : (option.toList.isPrefixOf other.toList || other.toList.isPrefixOf option.toList) =
      false)
    (h : startsWith option arg = true) : startsWith other arg = false := by
  by_contra hother
  rw [Bool.not_eq_false] at hother
  rw [startsWith, List.isPrefixOf_iff_prefix] at h hother
  obtain ⟨hoption, hback⟩ := Bool.or_eq_false_iff.mp hapart
  rcases List.prefix_or_prefix_of_prefix h hother with hprefix | hprefix
  · exact absurd (List.isPrefixOf_iff_prefix.mpr hprefix) (by simp [hoption])
  · exact absurd (List.isPrefixOf_iff_prefix.mpr hprefix) (by simp [hback])

theorem lastWith_concat (option : String) (args : List String) (arg : String) :
    lastWith option (args ++ [arg]) =
      if startsWith option arg then arg else lastWith option args := by
  rw [lastWith, List.filter_append]
  by_cases harg : startsWith option arg = true
  · simp [harg]
  · simp [harg, lastWith]

theorem readArguments_append (args : List String) (arg : String) :
    readArguments (args ++ [arg]) = readArgument (readArguments args) arg := by
  simp [readArguments]

theorem readArguments_eq (args : List String) :
    readArguments args = {
      passthroughArgs := args.filter fun arg => !isMerged arg
      inputPlugins := lastWith pluginsOption args
      cliPluginPath := lastWith pluginPathOption args
      cliDefaultPluginsFile := lastWith defaultPluginsOption args
      coreConfigDir := without coreConfigDirOption (lastWith coreConfigDirOption args) } := by
  induction args using List.reverseRecOn with
  | nil => decide +kernel
  | append_singleton args arg ih =>
      rw [readArguments_append, ih]
      simp only [lastWith_concat, List.filter_append]
      by_cases hplugins : startsWith pluginsOption arg = true
      · have hpath : startsWith pluginPathOption arg = false := startsWith_other rfl hplugins
        have hcore : startsWith coreConfigDirOption arg = false := startsWith_other rfl hplugins
        have hdefault : startsWith defaultPluginsOption arg = false := startsWith_other rfl hplugins
        simp [readArgument, isMerged, hplugins, hpath, hcore, hdefault]
      · by_cases hpath : startsWith pluginPathOption arg = true
        · have hcore : startsWith coreConfigDirOption arg = false := startsWith_other rfl hpath
          have hdefault : startsWith defaultPluginsOption arg = false := startsWith_other rfl hpath
          simp [readArgument, isMerged, hplugins, hpath, hcore, hdefault]
        · by_cases hcore : startsWith coreConfigDirOption arg = true
          · have hdefault : startsWith defaultPluginsOption arg = false :=
              startsWith_other rfl hcore
            simp [readArgument, isMerged, hplugins, hpath, hcore, hdefault]
          · by_cases hdefault : startsWith defaultPluginsOption arg = true
            · simp [readArgument, isMerged, hplugins, hpath, hcore, hdefault]
            · simp [readArgument, isMerged, hplugins, hpath, hcore, hdefault]

end Arguments

def OnlyCommas (plugins : String) : Prop := ∀ c ∈ plugins.toList, c = ','

/-- The names of the core layer, and what is left of the standard input. They are those of the file,
or the fallback where there is no file or only commas in it. -/
def CoreNames (env : Environment) (a : Arguments) (core : List String) (input : String) : Prop :=
  (∃ plugins, env.isRegularFile (defaultPluginsFile env a) = true ∧
      readOperand env env.standardInput (defaultPluginsFile env a) = some (plugins, input) ∧
      ¬ OnlyCommas plugins ∧
      core = (operandNames env env.standardInput (defaultPluginsFile env a)).1) ∨
    (env.isRegularFile (defaultPluginsFile env a) = false ∧ input = env.standardInput ∨
        ∃ plugins, env.isRegularFile (defaultPluginsFile env a) = true ∧
          readOperand env env.standardInput (defaultPluginsFile env a) = some (plugins, input) ∧
          OnlyCommas plugins) ∧
      core = ["evio_parser", "evio_common_modules", "detector_translation"]

def directoryNames (env : Environment) (input configDir : String) : List String × String :=
  if configDir ≠ "" ∧ env.isDirectory configDir ∧
      env.isRegularFile (configDir ++ "/default_plugins.db") then
    operandNames env input (configDir ++ "/default_plugins.db")
  else ([], input)

def directoriesNames (env : Environment) : String → List String → List String
  | _, [] => []
  | input, configDir :: configDirs =>
    (directoryNames env input configDir).1 ++
      directoriesNames env (directoryNames env input configDir).2 configDirs

section Layers

variable {env : Environment} {a : Arguments}

theorem names_fallbackPlugins :
    names fallbackPlugins = ["evio_parser", "evio_common_modules", "detector_translation"] := by
  decide +kernel

theorem operandNames_of_read {input operand plugins rest : String}
    (h : readOperand env input operand = some (plugins, rest)) :
    operandNames env input operand = (names plugins, rest) := by
  rw [readOperand] at h
  rw [operandNames]
  split at h
  next hinput =>
    obtain ⟨rfl, rfl⟩ := Prod.mk.inj (Option.some.inj h)
    rw [if_pos hinput, names_readPlugins]
  next hinput =>
    rw [if_neg hinput]
    split at h
    next hassigned =>
      obtain ⟨printed, hprinted, heq⟩ := Option.map_eq_some_iff.mp h
      obtain ⟨rfl, rfl⟩ := Prod.mk.inj heq
      rw [if_pos hassigned, hprinted, names_substitute]
      rfl
    next hassigned =>
      obtain ⟨content, hread, heq⟩ := Option.map_eq_some_iff.mp h
      obtain ⟨rfl, rfl⟩ := Prod.mk.inj heq
      rw [if_neg hassigned, (Option.filter_eq_some_iff.mp hread).1, names_readPlugins]
      rfl

theorem readPluginsFile_eq_ok {input file plugins rest : String} :
    readPluginsFile env input file = .ok (plugins, rest) ↔
      readOperand env input file = some (plugins, rest) := by
  rw [readPluginsFile]
  cases readOperand env input file <;> simp

theorem coreNames_of_ok {core : Layers} (h : corePlugins env a = .ok core) :
    ∃ plugins, core.pluginLists = ["evio_parser", plugins] ∧
      CoreNames env a (names plugins) core.input := by
  cases hregular : env.isRegularFile (defaultPluginsFile env a) with
  | false =>
      simp only [corePlugins, hregular] at h
      obtain rfl := Except.ok.inj h
      exact ⟨_, rfl, Or.inr ⟨Or.inl ⟨hregular, rfl⟩, names_fallbackPlugins⟩⟩
  | true =>
      simp only [corePlugins, hregular, if_true] at h
      obtain ⟨merged, hmap, h⟩ := Failing.bind_eq_ok.mp h
      obtain ⟨⟨plugins, input⟩, hread, rfl⟩ := Failing.map_eq_ok.mp hmap
      obtain rfl := Except.ok.inj h
      have hoperand := readPluginsFile_eq_ok.mp hread
      by_cases hcommas : plugins.toList.all (· = ',') = true
      · have honly : OnlyCommas plugins := fun c hc => by
          simpa using List.all_eq_true.mp hcommas c hc
        refine ⟨fallbackPlugins, by rw [if_pos hcommas], Or.inr ⟨Or.inr ?_, names_fallbackPlugins⟩⟩
        exact ⟨plugins, hregular, hoperand, honly⟩
      · have hother : ¬ OnlyCommas plugins := by simpa [OnlyCommas] using hcommas
        refine ⟨plugins, by rw [if_neg hcommas], Or.inl ⟨plugins, hregular, hoperand, hother, ?_⟩⟩
        rw [operandNames_of_read hoperand]

theorem names_addDirectory {s s' : Layers} {configDir : String}
    (h : addDirectory env s configDir = .ok s') :
    s'.pluginLists.flatMap names =
        s.pluginLists.flatMap names ++ (directoryNames env s.input configDir).1 ∧
      s'.input = (directoryNames env s.input configDir).2 := by
  by_cases hempty : configDir = ""
  · simp only [addDirectory, hempty, if_true, Except.ok.injEq] at h
    simp [directoryNames, hempty, h]
  · cases hdirectory : env.isDirectory configDir with
    | false =>
        simp only [addDirectory, hempty, hdirectory] at h
        obtain rfl := Except.ok.inj h
        simp [directoryNames, hdirectory]
    | true =>
        cases hregular : env.isRegularFile (configDir ++ "/default_plugins.db") with
        | false =>
            simp only [addDirectory, hempty, hdirectory, hregular] at h
            obtain rfl := Except.ok.inj h
            simp [directoryNames, hregular]
        | true =>
            simp only [addDirectory, hempty, hdirectory, hregular] at h
            obtain ⟨⟨plugins, input⟩, hread, h⟩ := Failing.bind_eq_ok.mp h
            obtain rfl := Except.ok.inj h
            have hnames := operandNames_of_read (readPluginsFile_eq_ok.mp hread)
            simp [directoryNames, hempty, hdirectory, hregular, hnames]

theorem names_addDirectories {dirs : List String} {s s' : Layers}
    (h : dirs.foldlM (addDirectory env) s = .ok s') :
    s'.pluginLists.flatMap names =
      s.pluginLists.flatMap names ++ directoriesNames env s.input dirs := by
  induction dirs generalizing s with
  | nil =>
      obtain rfl := Except.ok.inj h
      simp [directoriesNames]
  | cons dir dirs ih =>
      obtain ⟨t, hstep, hrest⟩ := Failing.foldlM_cons_ok.mp h
      obtain ⟨hnames, hinput⟩ := names_addDirectory hstep
      rw [ih hrest, hnames, hinput, directoriesNames, List.append_assoc]

/-- The names of all layers, with `evio_parser` in front. -/
def layerNames (env : Environment) (input : String) (core : List String) (inputPlugins : String) :
    List String :=
  "evio_parser" :: (core ++ directoriesNames env input (configDirs env) ++
    names (without pluginsOption inputPlugins))

def started (env : Environment) (a : Arguments) (layers : Layers) (userPath command : String) :
    Started where
  command
  args := a.passthroughArgs ++
    [pluginsOption ++ mergePlugins (layers.pluginLists ++ [without pluginsOption a.inputPlugins]),
      pluginPathOption ++ finalPluginPath env userPath]
  pluginPath := finalPluginPath env userPath
  warnings := layers.warnings

theorem run_eq_ok {args : List String} {s : Started} :
    run env args = .ok s ↔
      env.jceHome ≠ "" ∧ ∃ core layers userPath command,
        corePlugins env (readArguments args) = .ok core ∧
        (configDirs env).foldlM (addDirectory env) core = .ok layers ∧
        userPluginPath env (readArguments args) = .ok userPath ∧ janaCmd env = .ok command ∧
        s = started env (readArguments args) layers userPath command := by
  constructor
  · intro h
    simp only [run] at h
    split at h
    · exact absurd h (by simp)
    next hhome =>
      obtain ⟨core, hcore, h⟩ := Failing.bind_eq_ok.mp h
      obtain ⟨layers, hlayers, h⟩ := Failing.bind_eq_ok.mp h
      obtain ⟨userPath, hpath, h⟩ := Failing.bind_eq_ok.mp h
      obtain ⟨command, hcommand, h⟩ := Failing.bind_eq_ok.mp h
      exact ⟨hhome, core, layers, userPath, command, hcore, hlayers, hpath, hcommand,
        (Except.ok.inj h).symm⟩
  · intro h
    obtain ⟨hhome, core, layers, userPath, command, hcore, hlayers, hpath, hcommand, rfl⟩ := h
    simp only [run, hhome, if_false, hcore, hlayers, hpath, hcommand, Failing.bind_ok]
    rfl

theorem mergePlugins_layers {core : Layers} {plugins : String}
    (hcore : core.pluginLists = ["evio_parser", plugins]) {layers : Layers}
    (h : (configDirs env).foldlM (addDirectory env) core = .ok layers) (inputPlugins : String) :
    mergePlugins (layers.pluginLists ++ [without pluginsOption inputPlugins]) =
      ",".intercalate (layerNames env core.input (names plugins) inputPlugins).eraseDups := by
  have hparser : names "evio_parser" = ["evio_parser"] := by decide +kernel
  rw [mergePlugins_eq, List.flatMap_append, List.flatMap_singleton, names_addDirectories h, hcore]
  simp [hparser, layerNames]

theorem part_of_mem_fileNames {content : FileContent} {name : String}
    (h : name ∈ fileNames content) : Part isSeparator isSpace name.toList := by
  obtain ⟨line, -, hname⟩ := List.mem_flatMap.mp h
  exact part_of_mem_names hname

theorem part_of_mem_operandNames {input operand name : String}
    (h : name ∈ (operandNames env input operand).1) : Part isSeparator isSpace name.toList := by
  rw [operandNames] at h
  split at h
  · exact part_of_mem_fileNames h
  · split at h
    · cases hprinted : env.awkAssigned operand input with
      | none => simp [hprinted] at h
      | some printed =>
          rw [hprinted] at h
          exact part_of_mem_names h
    · cases hread : env.read operand with
      | none => simp [hread] at h
      | some content =>
          rw [hread] at h
          exact part_of_mem_fileNames h

theorem part_of_mem_directoriesNames {dirs : List String} {input name : String}
    (h : name ∈ directoriesNames env input dirs) : Part isSeparator isSpace name.toList := by
  induction dirs generalizing input with
  | nil => exact absurd h List.not_mem_nil
  | cons dir dirs ih =>
      rcases List.mem_append.mp h with h | h
      · rw [directoryNames] at h
        split at h
        · exact part_of_mem_operandNames h
        · exact absurd h List.not_mem_nil
      · exact ih h

theorem part_of_coreNames {core : List String} {input : String} (h : CoreNames env a core input) :
    ∀ name ∈ core, Part isSeparator isSpace name.toList := by
  intro name hname
  rcases h with ⟨plugins, -, -, -, rfl⟩ | ⟨-, rfl⟩
  · exact part_of_mem_operandNames hname
  · rw [← names_fallbackPlugins] at hname
    exact part_of_mem_names hname

theorem part_of_mem_layerNames {core : List String} {input : String}
    (h : CoreNames env a core input) (inputPlugins : String) :
    ∀ name ∈ layerNames env input core inputPlugins, Part isSeparator isSpace name.toList := by
  have hparser : names "evio_parser" = ["evio_parser"] := by decide +kernel
  refine List.forall_mem_cons.mpr ⟨?_, ?_⟩
  · exact part_of_mem_names (hparser ▸ List.mem_cons_self)
  · intro name hname
    rcases List.mem_append.mp hname with hname | hname
    · rcases List.mem_append.mp hname with hname | hname
      · exact part_of_coreNames h name hname
      · exact part_of_mem_directoriesNames hname
    · exact part_of_mem_names hname

/-- A core file and two directories, of which the first is named twice, and one that is missing. -/
def testEnvironment : Environment where
  isRegularFile path := path = "stack/config/default_plugins.db" ||
    path = "first/default_plugins.db" || path = "second/default_plugins.db"
  isDirectory path := path = "first" || path = "second"
  read path :=
    if path = "stack/config/default_plugins.db" then
      some ⟨"evio_common_modules,evio_parser,core\n", true⟩
    else if path = "first/default_plugins.db" then
      some ⟨" # comment\nfirst, evio_common_modules\nfirst\n", true⟩
    else if path = "second/default_plugins.db" then some ⟨"second,first\n", true⟩
    else none
  configDir := some ":first:missing:second:first:"
  jceHome := "stack"
  janaHome := ""
  janaPluginPath := ""
  isExecutable path := path = "stack/bin/jana"
  janaInPath := false
  standardInput := ""
  awkAssigned _ _ := none

def testArguments : List String := ["-Pplugins=second,cli,evio_parser", "data file.evio"]

def testStarted : Started where
  command := "stack/bin/jana"
  args := ["data file.evio", "-Pplugins=evio_parser,evio_common_modules,core,first,second,cli",
    "-Pjana:plugin_path=stack/lib/plugins"]
  pluginPath := "stack/lib/plugins"
  warnings := ["jce.sh warning: configuration directory not found: missing; skipping"]

theorem run_testEnvironment : run testEnvironment testArguments = .ok testStarted := by
  decide +kernel

end Layers

section Rerun

variable {env : Environment}

/-- What is left of the arguments when the merged options are taken out. -/
def Arguments.passed (a : Arguments) : Arguments :=
  { passthroughArgs := a.passthroughArgs, coreConfigDir := a.coreConfigDir }

theorem lastWith_passed {option : String} (args : List String)
    (hmerged : ∀ arg, startsWith option arg = true → isMerged arg = true) :
    lastWith option (args.filter fun arg => !isMerged arg) = "" := by
  rw [lastWith, List.filter_filter]
  have hnone : (args.filter fun arg => startsWith option arg && !isMerged arg) = [] := by
    rw [List.filter_eq_nil_iff]
    intro arg _ harg
    obtain ⟨hstart, hother⟩ := Bool.and_eq_true_iff.mp harg
    rw [hmerged arg hstart] at hother
    cases hother
  rw [hnone]
  rfl

theorem lastWith_filter {option : String} (args : List String)
    (hother : ∀ arg, startsWith option arg = true → isMerged arg = false) :
    lastWith option (args.filter fun arg => !isMerged arg) = lastWith option args := by
  rw [lastWith, List.filter_filter, lastWith]
  congr 3
  funext arg
  cases hstart : startsWith option arg with
  | false => rfl
  | true => simp [hother arg hstart]

theorem readArguments_passthroughArgs (args : List String) :
    readArguments (readArguments args).passthroughArgs = (readArguments args).passed := by
  have hcore (arg : String) (h : startsWith coreConfigDirOption arg = true) :
      isMerged arg = false := by
    have hplugins : startsWith pluginsOption arg = false := startsWith_other rfl h
    have hpath : startsWith pluginPathOption arg = false := startsWith_other rfl h
    have hdefault : startsWith defaultPluginsOption arg = false := startsWith_other rfl h
    simp [isMerged, hplugins, hpath, hdefault]
  rw [readArguments_eq args, readArguments_eq, List.filter_filter]
  simp only [Bool.and_self, Arguments.passed]
  rw [lastWith_passed args fun arg h => by simp [isMerged, h],
    lastWith_passed args fun arg h => by simp [isMerged, h],
    lastWith_passed args fun arg h => by simp [isMerged, h], lastWith_filter args hcore]

theorem not_startsWith_pluginPath (text : String) :
    startsWith pluginsOption (pluginPathOption ++ text) = false := by
  rw [startsWith, String.toList_append]
  rfl

theorem userPluginPath_append (path : String) (a : Arguments) :
    userPluginPath env { a with cliPluginPath := pluginPathOption ++ path } = .ok path := by
  have hne : pluginPathOption ++ path ≠ "" := by
    intro hempty
    have hlist := congrArg String.toList hempty
    rw [String.toList_append] at hlist
    exact absurd hlist (List.append_ne_nil_of_left_ne_nil (by decide) _)
  rw [userPluginPath, if_neg hne, if_pos (startsWith_append _ _), without_append]

theorem eraseDups_append_of_subset {names more : List String} (h : ∀ name ∈ more, name ∈ names) :
    (names ++ more).eraseDups = names.eraseDups := by
  have hnone : more.removeAll names = [] := by
    rw [List.removeAll, List.filter_eq_nil_iff]
    intro name hname
    simp [h name hname]
  rw [List.eraseDups_append, hnone, List.eraseDups_nil, List.append_nil]

/-- Names that are merged with what they have been merged into give the same again. -/
theorem eraseDups_append_eraseDups (names more : List String) :
    (names ++ (names ++ more).eraseDups).eraseDups = (names ++ more).eraseDups := by
  induction more using List.reverseRecOn with
  | nil =>
      rw [List.append_nil]
      exact eraseDups_append_of_subset fun name => List.mem_eraseDups.mp
  | append_singleton more name ih =>
      rw [← List.append_assoc names more, Grouping.eraseDups_concat]
      by_cases hname : name ∈ names ++ more
      · rw [if_pos hname, ih]
      · have hnew : name ∉ names ++ (names ++ more).eraseDups := by
          rw [List.mem_append, List.mem_eraseDups]
          intro h
          exact hname (h.elim (List.mem_append_left _) id)
        rw [if_neg hname, ← List.append_assoc, Grouping.eraseDups_concat, if_neg hnew, ih]

def remade (env : Environment) (a : Arguments) (plugins userPath : String) : Arguments :=
  { a.passed with
    inputPlugins := pluginsOption ++ plugins
    cliPluginPath := pluginPathOption ++ finalPluginPath env userPath }

theorem readArguments_remade (args : List String) (plugins userPath : String) :
    readArguments ((readArguments args).passthroughArgs ++
      [pluginsOption ++ plugins, pluginPathOption ++ finalPluginPath env userPath]) =
        remade env (readArguments args) plugins userPath := by
  rw [List.append_cons, readArguments_append, readArguments_append, readArguments_passthroughArgs]
  simp [readArgument, startsWith_append, not_startsWith_pluginPath, remade]

theorem corePlugins_remade {a : Arguments} (hdefault : a.cliDefaultPluginsFile = "")
    (plugins userPath : String) :
    corePlugins env (remade env a plugins userPath) = corePlugins env a := by
  have hfile : defaultPluginsFile env (remade env a plugins userPath) =
      defaultPluginsFile env a := by
    rw [defaultPluginsFile, defaultPluginsFile, hdefault]
    rfl
  rw [corePlugins, corePlugins, hfile]

theorem userPluginPath_remade (a : Arguments) (plugins userPath : String) :
    userPluginPath env (remade env a plugins userPath) = .ok (finalPluginPath env userPath) :=
  userPluginPath_append _ { a.passed with inputPlugins := pluginsOption ++ plugins }

/-- The merged list is the same when it is merged with the layers again. -/
theorem layerNames_remade {core : List String} {input : String} {a : Arguments}
    (hcore : CoreNames env a core input) (inputPlugins : String) :
    (layerNames env input core (pluginsOption ++
      ",".intercalate (layerNames env input core inputPlugins).eraseDups)).eraseDups =
        (layerNames env input core inputPlugins).eraseDups := by
  have hnames : names (",".intercalate (layerNames env input core inputPlugins).eraseDups) =
      (layerNames env input core inputPlugins).eraseDups :=
    names_intercalate fun name hname =>
      part_of_mem_layerNames hcore _ name (List.mem_eraseDups.mp hname)
  have hsplit (option : String) : layerNames env input core option =
      ("evio_parser" :: (core ++ directoriesNames env input (configDirs env))) ++
        names (without pluginsOption option) := rfl
  rw [hsplit, without_append, hnames, hsplit, eraseDups_append_eraseDups]

/-- A start with the arguments that the wrapper has made loads the same plugins, when the core file
was not named on the command line. -/
theorem rerun {args : List String} {s : Started} (h : run env args = .ok s)
    (hdefault : (readArguments args).cliDefaultPluginsFile = "") :
    ∃ plugins again, run env s.args = .ok again ∧
      s.args = (readArguments args).passthroughArgs ++
        [pluginsOption ++ plugins, pluginPathOption ++ s.pluginPath] ∧
      again.args = (readArguments args).passthroughArgs ++
        [pluginsOption ++ plugins, pluginPathOption ++ again.pluginPath] ∧
      again.pluginPath = finalPluginPath env s.pluginPath := by
  obtain ⟨hhome, core, layers, userPath, command, hcore, hlayers, -, hcommand, rfl⟩ :=
    run_eq_ok.mp h
  obtain ⟨text, hlists, hnames⟩ := coreNames_of_ok hcore
  have hargs : (started env (readArguments args) layers userPath command).args =
      (readArguments args).passthroughArgs ++
        [pluginsOption ++ ",".intercalate (layerNames env core.input (names text)
            (readArguments args).inputPlugins).eraseDups,
          pluginPathOption ++ finalPluginPath env userPath] := by
    rw [started, mergePlugins_layers hlists hlayers]
  -- No core file is named this time either, so that the core layer is the same.
  let a := remade env (readArguments args) (",".intercalate (layerNames env core.input (names text)
    (readArguments args).inputPlugins).eraseDups) userPath
  refine ⟨_, started env a layers (finalPluginPath env userPath) command, ?_, hargs, ?_, rfl⟩
  · rw [hargs, run_eq_ok, readArguments_remade]
    exact ⟨hhome, core, layers, _, command, (corePlugins_remade hdefault _ _).trans hcore, hlayers,
      userPluginPath_remade _ _ _, hcommand, rfl⟩
  · have hplugins : a.inputPlugins = pluginsOption ++ ",".intercalate (layerNames env core.input
        (names text) (readArguments args).inputPlugins).eraseDups := rfl
    rw [started, mergePlugins_layers hlists hlayers, hplugins, layerNames_remade hnames]
    rfl

theorem rerun_test :
    ∃ plugins again, run testEnvironment testStarted.args = .ok again ∧
      testStarted.args = (readArguments testArguments).passthroughArgs ++
        [pluginsOption ++ plugins, pluginPathOption ++ testStarted.pluginPath] ∧
      again.args = (readArguments testArguments).passthroughArgs ++
        [pluginsOption ++ plugins, pluginPathOption ++ again.pluginPath] ∧
      again.pluginPath = finalPluginPath testEnvironment testStarted.pluginPath :=
  rerun run_testEnvironment (by decide +kernel)

end Rerun

section Agreement

variable {env : Environment}

def missing (env : Environment) (configDirs : List String) : List String :=
  configDirs.filter fun configDir => configDir ≠ "" && !env.isDirectory configDir

theorem warnings_addDirectory {s s' : Layers} {configDir : String}
    (h : addDirectory env s configDir = .ok s') :
    s'.warnings = s.warnings ++ (missing env [configDir]).map fun configDir =>
      warning ("configuration directory not found: " ++ configDir ++ "; skipping") := by
  by_cases hempty : configDir = ""
  · simp only [addDirectory, hempty, if_true, Except.ok.injEq] at h
    simp [missing, hempty, h]
  · cases hdirectory : env.isDirectory configDir with
    | false =>
        simp only [addDirectory, hempty, hdirectory] at h
        obtain rfl := Except.ok.inj h
        simp [missing, hempty, hdirectory]
    | true =>
        have hnone : missing env [configDir] = [] := by simp [missing, hdirectory]
        rw [hnone, List.map_nil, List.append_nil]
        simp only [addDirectory, hempty, hdirectory, Bool.not_true, Bool.false_eq_true,
          if_false] at h
        split at h
        · obtain ⟨plugins, -, h⟩ := Failing.bind_eq_ok.mp h
          obtain rfl := Except.ok.inj h
          rfl
        · obtain rfl := Except.ok.inj h
          rfl

theorem warnings_addDirectories {dirs : List String} {s s' : Layers}
    (h : dirs.foldlM (addDirectory env) s = .ok s') :
    s'.warnings = s.warnings ++ (missing env dirs).map fun configDir =>
      warning ("configuration directory not found: " ++ configDir ++ "; skipping") := by
  induction dirs generalizing s with
  | nil =>
      obtain rfl := Except.ok.inj h
      simp [missing]
  | cons dir dirs ih =>
      obtain ⟨t, hstep, hrest⟩ := Failing.foldlM_cons_ok.mp h
      have hsplit : missing env (dir :: dirs) = missing env [dir] ++ missing env dirs := by
        rw [missing, ← List.singleton_append, List.filter_append]
        rfl
      rw [ih hrest, warnings_addDirectory hstep, hsplit, List.map_append, List.append_assoc]

theorem named_eq (hline : '\n' ∉ (env.configDir.getD "").toList) :
    env.named = (configDirs env).filter (· ≠ "") := by
  have hfirst : (env.configDir.getD "").toList.takeWhile (· ≠ '\n') =
      (env.configDir.getD "").toList := by
    rw [List.takeWhile_eq_self_iff]
    intro c hc
    rw [decide_eq_true_eq]
    rintro rfl
    exact hline hc
  rw [configDirs, hfirst, String.ofList_toList, ConfigTree.named]
  cases env.configDir with
  | none => decide +kernel
  | some list => rfl

theorem fileIn_eq {directory : String} (hne : directory ≠ "")
    (hslash : directory.toList.getLast? ≠ some '/') :
    ConfigTree.fileIn directory "default_plugins.db" = directory ++ "/default_plugins.db" := by
  have hrelative : (⟨"default_plugins.db"⟩ : Path).isAbsolute = false := by decide +kernel
  change (Path.append ⟨directory⟩ ⟨"default_plugins.db"⟩).string = _
  rw [Path.append, hrelative, if_neg (by simp), if_neg (by simp [hne, hslash]), String.append_assoc]
  rfl

/-- Awk takes the file of a directory for an assignment exactly when it takes the directory for one,
as there is no `=` in the name of the file. -/
theorem isAssignment_append (directory : String) :
    isAssignment (directory ++ "/default_plugins.db") = isAssignment directory := by
  rw [isAssignment, isAssignment, String.toList_append]
  by_cases hmem : '=' ∈ directory.toList
  · have hcontains : directory.toList.contains '=' = true := by simpa using hmem
    have happend : (directory.toList ++ ("/default_plugins.db").toList).contains '=' = true := by
      simp [hmem]
    have hstop : (directory.toList.takeWhile (· ≠ '=')).length ≠ directory.toList.length := by
      intro hlength
      have hall := List.takeWhile_eq_self_iff.mp
        ((List.takeWhile_prefix _).eq_of_length hlength) '=' hmem
      simp at hall
    rw [hcontains, happend, List.takeWhile_append, if_neg hstop]
  · have hcontains : directory.toList.contains '=' = false := by simpa using hmem
    have happend : (directory.toList ++ ("/default_plugins.db").toList).contains '=' = false := by
      simp [hmem]
    rw [hcontains, happend, Bool.false_and, Bool.false_and]

example : isAssignment ("cfg=prod" ++ "/default_plugins.db") = true := by decide +kernel

theorem operandNames_file {directory : String} (hassigned : isAssignment directory = false)
    (input : String) :
    operandNames env input (directory ++ "/default_plugins.db") =
      ((env.read (directory ++ "/default_plugins.db")).elim [] fileNames, input) := by
  have hdash : directory ++ "/default_plugins.db" ≠ "-" := by
    intro heq
    have hlength := congrArg (fun text => text.toList.length) heq
    have hdash : ("-").toList.length = 1 := by decide +kernel
    have hfile : ("/default_plugins.db").toList.length = 19 := by decide +kernel
    simp only [String.toList_append, List.length_append, hdash, hfile] at hlength
    omega
  rw [operandNames, if_neg hdash, isAssignment_append, hassigned]
  rfl

theorem directoryNames_eq {directory : String} (hne : directory ≠ "")
    (hslash : directory.toList.getLast? ≠ some '/') (hassigned : isAssignment directory = false)
    (input : String) :
    directoryNames env input directory =
      (((env.fileOf? "default_plugins.db" directory).elim [] fun file =>
        (env.read file).elim [] fileNames), input) := by
  rw [directoryNames, ConfigTree.fileOf?, fileIn_eq hne hslash]
  by_cases hfile : env.isDirectory directory ∧
      env.isRegularFile (directory ++ "/default_plugins.db")
  · rw [if_pos ⟨hne, hfile⟩, if_pos hfile, operandNames_file hassigned]
    rfl
  · rw [if_neg (fun h => hfile h.2), if_neg hfile]
    rfl

theorem directoriesNames_eq (dirs : List String) (input : String)
    (hslash : ∀ directory ∈ dirs.filter (· ≠ ""), directory.toList.getLast? ≠ some '/')
    (hassigned : ∀ directory ∈ dirs.filter (· ≠ ""), isAssignment directory = false) :
    directoriesNames env input dirs =
      ((dirs.filter (· ≠ "")).filterMap (env.fileOf? "default_plugins.db")).flatMap fun file =>
        (env.read file).elim [] fileNames := by
  induction dirs with
  | nil => rfl
  | cons directory dirs ih =>
      rw [directoriesNames]
      by_cases hempty : directory = ""
      · have hnone : directoryNames env input directory = ([], input) := by
          simp [directoryNames, hempty]
        have hskip : (directory :: dirs).filter (· ≠ "") = dirs.filter (· ≠ "") := by simp [hempty]
        rw [hskip] at hslash hassigned ⊢
        rw [hnone, List.nil_append, ih hslash hassigned]
      · have hkeep : (directory :: dirs).filter (· ≠ "") = directory :: dirs.filter (· ≠ "") := by
          simp [hempty]
        rw [hkeep] at hslash hassigned ⊢
        obtain ⟨hfirst, hrest⟩ := List.forall_mem_cons.mp hslash
        obtain ⟨hfile, hfiles⟩ := List.forall_mem_cons.mp hassigned
        rw [directoryNames_eq hempty hfirst hfile, ih hrest hfiles, List.filterMap_cons]
        cases env.fileOf? "default_plugins.db" directory with
        | none => rfl
        | some file => rw [List.flatMap_cons]; rfl

end Agreement

end PluginWrapper

end JanaExtensions
