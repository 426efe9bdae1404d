import JanaExtensions.BankDispatch
import JanaExtensions.Filesystem
import JanaExtensions.FilterUnion
import JanaExtensions.RouteLayers

/-! The configuration files of the parser: a core file that is required, and the files of the
directories that the environment names. The filter is the union of these layers, and a later layer
of routes overrides the earlier ones. -/

namespace JanaExtensions

/-- The files and directories at hand, and the environment variable `JCE_CONFIG_DIR`. -/
structure ConfigTree where
  isRegularFile : String → Bool
  isDirectory : String → Bool
  read : String → Option FileContent
  configDir : Option String

namespace ConfigTree

def directories (list : String) : List String := (list.toList.splitOnP (· = ':')).map String.ofList

def fileIn (directory filename : String) : String := ((⟨directory⟩ : Path) / ⟨filename⟩).string

def requiredFile (filename coreDirectory explicitFile : String) : String :=
  let coreFile := fileIn coreDirectory filename
  if explicitFile = "" then coreFile else explicitFile

/-- The files found so far, and the warnings. -/
def addDirectory (tree : ConfigTree) (filename : String) (s : List String × List String)
    (directory : String) : List String × List String :=
  if directory = "" then s
  else if !tree.isDirectory directory then
    (s.1, s.2 ++ ["Configuration directory not found: " ++ directory ++ "; skipping"])
  else
    let file := fileIn directory filename
    if tree.isRegularFile file then (s.1 ++ [file], s.2) else s

def jceConfigFiles (tree : ConfigTree) (filename coreDirectory explicitFile : String) :
    Except String (List String × List String) :=
  let requiredFile := requiredFile filename coreDirectory explicitFile
  if !tree.isRegularFile requiredFile then
    .error ("JCE configuration file not found: " ++ requiredFile)
  else
    match tree.configDir with
    | none => .ok ([requiredFile], [])
    | some list => .ok ((directories list).foldl (tree.addDirectory filename) ([requiredFile], []))

def named (tree : ConfigTree) : List String :=
  (tree.configDir.elim [] directories).filter (· ≠ "")

def fileOf? (tree : ConfigTree) (filename directory : String) : Option String :=
  if tree.isDirectory directory ∧ tree.isRegularFile (fileIn directory filename) then
    some (fileIn directory filename)
  else none

def appended (tree : ConfigTree) (filename : String) : List String :=
  tree.named.filterMap (tree.fileOf? filename)

def warnings (tree : ConfigTree) : List String :=
  (tree.named.filter fun directory => !tree.isDirectory directory).map fun directory =>
    "Configuration directory not found: " ++ directory ++ "; skipping"

variable {tree : ConfigTree} {filename coreDirectory explicitFile : String}

theorem addDirectory_foldl (names : List String) (s : List String × List String) :
    names.foldl (tree.addDirectory filename) s =
      (s.1 ++ (names.filter (· ≠ "")).filterMap (tree.fileOf? filename),
        s.2 ++ ((names.filter (· ≠ "")).filter fun directory => !tree.isDirectory directory).map
          fun directory => "Configuration directory not found: " ++ directory ++ "; skipping") := by
  induction names generalizing s with
  | nil => simp
  | cons name names ih =>
      rw [List.foldl_cons, ih]
      by_cases hempty : name = ""
      · simp [addDirectory, hempty]
      · cases hdirectory : tree.isDirectory name with
        | false => simp [addDirectory, hempty, hdirectory, fileOf?]
        | true =>
            by_cases hfile : tree.isRegularFile (fileIn name filename) = true <;>
              simp [addDirectory, hempty, hdirectory, fileOf?, hfile]

/-- The core file or the explicit file comes first, and the files of the directories follow in the
order of the environment. -/
theorem jceConfigFiles_eq (tree : ConfigTree) (filename coreDirectory explicitFile : String) :
    tree.jceConfigFiles filename coreDirectory explicitFile =
      if tree.isRegularFile (requiredFile filename coreDirectory explicitFile) then
        .ok (requiredFile filename coreDirectory explicitFile :: tree.appended filename,
          tree.warnings)
      else .error ("JCE configuration file not found: " ++
        requiredFile filename coreDirectory explicitFile) := by
  rw [jceConfigFiles]
  cases hregular : tree.isRegularFile (requiredFile filename coreDirectory explicitFile) with
  | false => simp
  | true =>
      cases hdir : tree.configDir with
      | none => simp [appended, warnings, named, hdir]
      | some list => simp [appended, warnings, named, hdir, addDirectory_foldl]

end ConfigTree

structure ConfigParameters where
  coreConfigDir : String
  bankMapFile : String
  filterEnable : Bool
  filterFile : String

namespace BankToModuleMap

def init (tree : ConfigTree) (p : ConfigParameters) (self : BankToModuleMap) :
    Except String Unit × BankToModuleMap :=
  match tree.jceConfigFiles "mapping.db" p.coreConfigDir p.bankMapFile with
  | .error message => (.error message, self)
  | .ok (files, warnings) =>
    loadMappingFiles (files.map fun file => ⟨file, tree.read file⟩)
      { self with warnings := self.warnings ++ warnings }

def layersOf (tree : ConfigTree) (p : ConfigParameters) : List MappingFile :=
  (ConfigTree.requiredFile "mapping.db" p.coreConfigDir p.bankMapFile ::
    tree.appended "mapping.db").map fun file => ⟨file, tree.read file⟩

/-- The last layer that mentions the bank has the module, or no layer mentions it and a plugin has
registered the module. -/
def RoutedTo (self : BankToModuleMap) (layers : List MappingFile) (bank m : Int) : Prop :=
  (∃ pre file post, layers = pre ++ file :: post ∧ file.Mentions bank m ∧
      ∀ later ∈ post, ∀ m', ¬ later.Mentions bank m') ∨
    (∀ file ∈ layers, ∀ m', ¬ file.Mentions bank m') ∧ self.route bank = some m

variable {tree : ConfigTree} {p : ConfigParameters} {self : BankToModuleMap}

theorem init_eq (tree : ConfigTree) (p : ConfigParameters) (self : BankToModuleMap)
    (hregular : tree.isRegularFile
      (ConfigTree.requiredFile "mapping.db" p.coreConfigDir p.bankMapFile) = true) :
    self.init tree p =
      loadMappingFiles (layersOf tree p) { self with warnings := self.warnings ++ tree.warnings } := by
  rw [init, ConfigTree.jceConfigFiles_eq, if_pos hregular]
  rfl

/-- The service starts exactly when the required file is there and each layer is accepted. -/
theorem init_ok_iff (hfrozen : self.frozen = false) :
    (self.init tree p).1 = .ok () ↔
      tree.isRegularFile (ConfigTree.requiredFile "mapping.db" p.coreConfigDir p.bankMapFile) =
          true ∧
        ∀ file ∈ layersOf tree p, file.Accepted := by
  by_cases hregular : tree.isRegularFile
      (ConfigTree.requiredFile "mapping.db" p.coreConfigDir p.bankMapFile) = true
  · rw [init_eq tree p self hregular]
    constructor
    · intro hok
      exact ⟨hregular, (route_loadMappingFiles hok).1⟩
    · intro h
      exact loadMappingFiles_ok hfrozen h.2
  · have hinit : self.init tree p = (.error ("JCE configuration file not found: " ++
        ConfigTree.requiredFile "mapping.db" p.coreConfigDir p.bankMapFile), self) := by
      rw [init, ConfigTree.jceConfigFiles_eq, if_neg hregular]
    simp [hinit, hregular]

section RoutedTo

variable {layers : List MappingFile} {bank m : Int}

theorem RoutedTo.overlays_eq (h : self.RoutedTo layers bank m)
    (haccepted : ∀ file ∈ layers, file.Accepted) :
    Overlay.overlays self.route (layers.map layer) bank = some m := by
  rcases h with ⟨pre, file, post, rfl, hmentions, hlater⟩ | ⟨hnone, hroute⟩
  · have hlayer := (layer_eq_some_iff (haccepted file (by simp))).mpr hmentions
    have hpost : ∀ later ∈ post.map layer, later bank = none := by
      intro later hmem
      obtain ⟨f, hf, rfl⟩ := List.mem_map.mp hmem
      exact layer_eq_none (haccepted f (by simp [hf])) (hlater f hf)
    rw [List.map_append, List.map_cons, Overlay.overlays_eq_last hlayer hpost]
  · rw [Overlay.overlays_eq_base, hroute]
    intro l hmem
    obtain ⟨f, hf, rfl⟩ := List.mem_map.mp hmem
    exact layer_eq_none (haccepted f hf) (hnone f hf)

theorem RoutedTo.concat {file : MappingFile} (h : self.RoutedTo layers bank m)
    (hnone : ∀ m', ¬ file.Mentions bank m') : self.RoutedTo (layers ++ [file]) bank m := by
  rcases h with ⟨pre, f, post, rfl, hmentions, hlater⟩ | ⟨hlayers, hroute⟩
  · exact Or.inl ⟨pre, f, post ++ [file], by simp, hmentions,
      Failing.forall_mem_concat.mpr ⟨hlater, hnone⟩⟩
  · exact Or.inr ⟨Failing.forall_mem_concat.mpr ⟨hlayers, hnone⟩, hroute⟩

theorem routedTo_of_overlays (haccepted : ∀ file ∈ layers, file.Accepted)
    (h : Overlay.overlays self.route (layers.map layer) bank = some m) :
    self.RoutedTo layers bank m := by
  induction layers using List.reverseRecOn with
  | nil => exact Or.inr ⟨by simp, h⟩
  | append_singleton layers file ih =>
      rw [List.map_append, List.map_singleton, Overlay.overlays_append_singleton,
        Overlay.overlay] at h
      have hfile := haccepted file (by simp)
      cases hlayer : layer file bank with
      | some v =>
          rw [hlayer, Option.some_or] at h
          have hmentions := (layer_eq_some_iff hfile).mp (hlayer.trans h)
          exact Or.inl ⟨layers, file, [], rfl, hmentions, by simp⟩
      | none =>
          rw [hlayer, Option.none_or] at h
          have hnone : ∀ m', ¬ file.Mentions bank m' := by
            intro m' hmentions
            rw [(layer_eq_some_iff hfile).mpr hmentions] at hlayer
            exact absurd hlayer (by simp)
          exact (ih (fun f hf => haccepted f (by simp [hf])) h).concat hnone

end RoutedTo

theorem route_init_iff (hok : (self.init tree p).1 = .ok ()) (hfrozen : self.frozen = false)
    (bank m : Int) :
    (self.init tree p).2.route bank = some m ↔ self.RoutedTo (layersOf tree p) bank m := by
  obtain ⟨hregular, haccepted⟩ := (init_ok_iff hfrozen).mp hok
  rw [init_eq tree p self hregular] at hok ⊢
  rw [(route_loadMappingFiles hok).2]
  constructor
  · intro h
    exact routedTo_of_overlays haccepted h
  · intro h
    exact RoutedTo.overlays_eq h haccepted

/-- Routes that plugins add. A call that is refused leaves the registry as it is. -/
def addRoutes (added : List (Int × Int)) (self : BankToModuleMap) : BankToModuleMap :=
  added.foldl (fun self route => (addRoute route.1 route.2 self).2) self

/-- The layers route the bank to the module, or they route it nowhere and the first call that
adds it does. -/
def RoutedWith (self : BankToModuleMap) (layers : List MappingFile) (added : List (Int × Int))
    (bank m : Int) : Prop :=
  self.RoutedTo layers bank m ∨
    (∀ m', ¬ self.RoutedTo layers bank m') ∧ added.lookup bank = some m

theorem addRoute_of_unfrozen (hfrozen : self.frozen = false) (bankId moduleId : Int) :
    (addRoute bankId moduleId self).2.frozen = false ∧ ∀ bank,
      (addRoute bankId moduleId self).2.route bank =
        (self.route bank).or (if bank = bankId then some moduleId else none) := by
  cases hfind : self.bankToModule.find bankId with
  | some existing =>
      have hsame : (addRoute bankId moduleId self).2 = self := by
        simp [addRoute, hfrozen, OrderedMap.emplace, hfind]
      rw [hsame]
      refine ⟨hfrozen, fun bank => ?_⟩
      by_cases hbank : bank = bankId
      · rw [route, hbank, hfind, Option.some_or]
      · rw [if_neg hbank, Option.or_none]
  | none =>
      have hadded : (addRoute bankId moduleId self).2 =
          { self with bankToModule := self.bankToModule.insert bankId moduleId } := by
        simp [addRoute, hfrozen, OrderedMap.emplace, hfind]
      rw [hadded]
      refine ⟨hfrozen, fun bank => ?_⟩
      rw [route, OrderedMap.find_insert]
      by_cases hbank : bank = bankId
      · rw [if_pos hbank, if_pos hbank, route, hbank, hfind, Option.none_or]
      · rw [if_neg hbank, if_neg hbank, Option.or_none, route]

theorem route_addRoutes (hfrozen : self.frozen = false) (added : List (Int × Int)) (bank : Int) :
    (self.addRoutes added).route bank = (self.route bank).or (added.lookup bank) := by
  induction added generalizing self with
  | nil => rw [List.lookup_nil, Option.or_none, addRoutes, List.foldl_nil]
  | cons route rest ih =>
      obtain ⟨bankId, moduleId⟩ := route
      obtain ⟨hfrozen', hroute⟩ := addRoute_of_unfrozen hfrozen bankId moduleId
      have hrest : self.addRoutes ((bankId, moduleId) :: rest) =
          (addRoute bankId moduleId self).2.addRoutes rest := rfl
      rw [hrest, ih hfrozen', hroute, Option.or_assoc, List.lookup_cons]
      by_cases hbank : bank = bankId
      · simp [hbank]
      · have hne : (bank == bankId) = false := beq_false_of_ne hbank
        simp [hbank, hne]

theorem route_addRoutes_iff (hok : (self.init tree p).1 = .ok ()) (hfrozen : self.frozen = false)
    (added : List (Int × Int)) (bank m : Int) :
    ((self.init tree p).2.addRoutes added).route bank = some m ↔
      self.RoutedWith (layersOf tree p) added bank m := by
  have hinit : (self.init tree p).2.frozen = false := by
    rw [init_eq tree p self ((init_ok_iff hfrozen).mp hok).1, loadMappingFiles_frozen]
    exact hfrozen
  rw [route_addRoutes hinit, RoutedWith, ← route_init_iff hok hfrozen]
  simp only [← route_init_iff hok hfrozen]
  cases (self.init tree p).2.route bank with
  | none => simp
  | some found => simp

end BankToModuleMap

namespace FilterDB

/-- What is printed or thrown, the warnings, and the filter afterwards. -/
def init (tree : ConfigTree) (p : ConfigParameters) (self : FilterDB) :
    Except String (List String) × List String × FilterDB :=
  if p.filterEnable then
    match tree.jceConfigFiles "filter.db" p.coreConfigDir p.filterFile with
    | .error message => (.error message, [], self)
    | .ok (files, warnings) =>
      match fillDBs (files.map fun file => ⟨file, tree.read file⟩) self with
      | (.error message, self) => (.error message, warnings, self)
      | (.ok (), self) => (self.printSummaryTable, warnings, self)
  else (.ok [], [], self)

/-- The layers of the filter, of which there are none when it is disabled. -/
def layersOf (tree : ConfigTree) (p : ConfigParameters) : List FilterFile :=
  if p.filterEnable then
    (ConfigTree.requiredFile "filter.db" p.coreConfigDir p.filterFile ::
      tree.appended "filter.db").map fun file => ⟨file, tree.read file⟩
  else []

/-- No layer has a row at all, or some layer has one for the ROC and the bank. -/
def Passes (layers : List FilterFile) (rocid bank : Int) : Prop :=
  (∀ row, ¬ Listed layers row) ∨ ∃ row, Listed layers row ∧ row.rocid = rocid ∧ row.bank = bank

variable {tree : ConfigTree} {p : ConfigParameters}

theorem init_eq_ok {printed : List String} (hok : (FilterDB.init tree p {}).1 = .ok printed) :
    (fillDBs (layersOf tree p) {}).1 = .ok () ∧
      (FilterDB.init tree p {}).2.2 = (fillDBs (layersOf tree p) {}).2 := by
  cases henable : p.filterEnable with
  | false => simp [init, layersOf, henable, fillDBs]
  | true =>
      by_cases hregular : tree.isRegularFile
          (ConfigTree.requiredFile "filter.db" p.coreConfigDir p.filterFile) = true
      · have hfiles := ConfigTree.jceConfigFiles_eq tree "filter.db" p.coreConfigDir p.filterFile
        rw [if_pos hregular] at hfiles
        simp only [init, layersOf, henable, if_true, hfiles] at hok ⊢
        cases hfill : fillDBs ((ConfigTree.requiredFile "filter.db" p.coreConfigDir p.filterFile ::
            tree.appended "filter.db").map fun file => ⟨file, tree.read file⟩) {} with
        | mk result self =>
            cases result with
            | error message =>
                rw [List.map_cons] at hfill
                simp [hfill] at hok
            | ok => exact ⟨rfl, rfl⟩
      · simp [init, henable, ConfigTree.jceConfigFiles_eq, hregular] at hok

theorem isBankAllowed_init_iff {printed : List String}
    (hok : (FilterDB.init tree p {}).1 = .ok printed) (rocid bank : Int) :
    (FilterDB.init tree p {}).2.2.isBankAllowed rocid bank = true ↔
      Passes (layersOf tree p) rocid bank := by
  obtain ⟨hfill, hself⟩ := init_eq_ok hok
  rw [hself]
  exact answer_fillDBs_iff hfill (.bank rocid bank)

end FilterDB

namespace EvioEventParser

section Startup

variable {P W : Type} (tree : ConfigTree) (p : ConfigParameters) (plugins : BankToModuleMap)
  (added : List (Int × Int))

/-- The services after their start, with the parsers that plugins have registered, and with the
routes that they have registered before the start and add after it. -/
def startedServices (parsers : ModuleParsersMap P) : Services P :=
  ⟨(FilterDB.init tree p {}).2.2, (plugins.init tree p).2.addRoutes added, parsers⟩

/-- The layers let the bank of the ROC through, and they or the plugins route it to the module. -/
def Layered (dbRocid : UInt32) (dma : BaseStructure) (m : Int) : Prop :=
  FilterDB.Passes (FilterDB.layersOf tree p) dbRocid.toNat dma.tag.toNat ∧ m ≠ -1 ∧
    plugins.RoutedWith (BankToModuleMap.layersOf tree p) added dma.tag.toNat m

variable {tree p plugins added} {printed : List String}

theorem selected_startedServices_iff (hfrozen : plugins.frozen = false)
    (hroutes : (plugins.init tree p).1 = .ok ())
    (hfilter : (FilterDB.init tree p {}).1 = .ok printed) (parsers : ModuleParsersMap P)
    (dbRocid : UInt32) (dma : BaseStructure) (m : Int) :
    Selected (startedServices tree p plugins added parsers) dbRocid dma ∧
        routedModule (startedServices tree p plugins added parsers) dma = m ↔
      Layered tree p plugins added dbRocid dma m := by
  have hallowed : Allowed (startedServices tree p plugins added parsers) dbRocid dma ↔
      FilterDB.Passes (FilterDB.layersOf tree p) dbRocid.toNat dma.tag.toNat :=
    FilterDB.isBankAllowed_init_iff hfilter dbRocid.toNat dma.tag.toNat
  have hroute := BankToModuleMap.route_addRoutes_iff hroutes hfrozen added dma.tag.toNat m
  have hmodule : routedModule (startedServices tree p plugins added parsers) dma =
      (((plugins.init tree p).2.addRoutes added).route dma.tag.toNat).getD (-1) := rfl
  rw [Selected, hallowed, Layered, ← hroute, hmodule]
  cases hfound : ((plugins.init tree p).2.addRoutes added).route dma.tag.toNat with
  | none =>
      simp
  | some found =>
      simp only [Option.getD_some, Option.some.injEq]
      constructor
      · intro h
        obtain ⟨⟨hpasses, hne⟩, rfl⟩ := h
        exact ⟨hpasses, hne, rfl⟩
      · intro h
        obtain ⟨hpasses, hne, rfl⟩ := h
        exact ⟨⟨hpasses, hne⟩, rfl⟩

theorem invocation?_startedServices_iff (hfrozen : plugins.frozen = false)
    (hroutes : (plugins.init tree p).1 = .ok ())
    (hfilter : (FilterDB.init tree p {}).1 = .ok printed) (parsers : ModuleParsersMap P)
    (dbRocid : UInt32) (dma : BaseStructure) (inv : Invocation P) :
    invocation? (startedServices tree p plugins added parsers) dbRocid dma = some inv ↔
      ∃ m, Layered tree p plugins added dbRocid dma m ∧
        parsers.moduleParsers.find m = some inv.parser ∧ inv.dma = dma ∧
        inv.context = bankContext dbRocid dma := by
  have hselected (m : Int) : Selected (startedServices tree p plugins added parsers) dbRocid dma ∧
      routedModule (startedServices tree p plugins added parsers) dma = m ↔
        Layered tree p plugins added dbRocid dma m :=
    selected_startedServices_iff hfrozen hroutes hfilter parsers dbRocid dma m
  constructor
  · intro h
    obtain ⟨hsel, hmap⟩ := Option.ite_none_right_eq_some.mp h
    obtain ⟨parser, hparser, rfl⟩ := Option.map_eq_some_iff.mp hmap
    exact ⟨_, (hselected _).mp ⟨hsel, rfl⟩, hparser, rfl, rfl⟩
  · intro h
    obtain ⟨m, hlayered, hparser, hdma, hcontext⟩ := h
    obtain ⟨hsel, rfl⟩ := (hselected m).mpr hlayered
    rw [invocation?, if_pos hsel]
    refine Option.map_eq_some_iff.mpr ⟨inv.parser, hparser, ?_⟩
    rw [← hcontext, ← hdma]

variable (invoke : P → BaseStructure → BankContext → W → Except Fault W)

/-- After a start from any configuration tree, the banks of a block that are decoded, and the parser
of each, are those that the layers and the plugins say. -/
theorem dispatch_of_layers (tree : ConfigTree) (p : ConfigParameters) (plugins : BankToModuleMap)
    (added : List (Int × Int)) (parsers : ModuleParsersMap P) (hfrozen : plugins.frozen = false)
    (hroutes : (plugins.init tree p).1 = .ok ())
    (hfilter : (FilterDB.init tree p {}).1 = .ok printed)
    (dataBanks segments : List BaseStructure) (shared : W) :
    (∀ s', parseROCBanks invoke dataBanks segments
          ⟨startedServices tree p plugins added parsers, shared⟩ = .ok s' →
        (invocations (startedServices tree p plugins added parsers) dataBanks).foldlM (call invoke)
          shared = .ok s'.shared) ∧
      (∀ dbRocid dma inv,
        invocation? (startedServices tree p plugins added parsers) dbRocid dma = some inv ↔
          ∃ m, Layered tree p plugins added dbRocid dma m ∧
            parsers.moduleParsers.find m = some inv.parser ∧ inv.dma = dma ∧
            inv.context = bankContext dbRocid dma) ∧
      ∀ dataBank ∈ dataBanks, ∀ dma ∈ dataBank.children, ∀ m,
        Layered tree p plugins added (rocid dataBank) dma m → parsers.moduleParsers.find m = none →
          ∀ s', parseROCBanks invoke dataBanks segments
            ⟨startedServices tree p plugins added parsers, shared⟩ ≠ .ok s' := by
  refine ⟨?_, invocation?_startedServices_iff hfrozen hroutes hfilter parsers, ?_⟩
  · intro s' hparse
    have hsim := parseROCBanks_simulates invoke (not_rejected_of_ok invoke hparse)
    rw [hparse] at hsim
    exact hsim.symm
  · intro dataBank hdata dma hdma m hlayered hnone s' hparse
    obtain ⟨hsel, hmodule⟩ :=
      (selected_startedServices_iff hfrozen hroutes hfilter parsers _ dma m).mpr hlayered
    have hmissing : parserOf (startedServices tree p plugins added parsers) dma = none := by
      rw [parserOf, hmodule]
      exact hnone
    exact not_rejected_of_ok invoke hparse
      (Or.inr (Or.inr ⟨dataBank, hdata, dma, hdma, hsel, hmissing⟩))

/-- A site directory overrides a route of the core files and adds rows to the filter, one of them
for a bank that a plugin routes. -/
def siteTree : ConfigTree where
  isRegularFile path := path = "core/mapping.db" || path = "core/filter.db" ||
    path = "site/mapping.db" || path = "site/filter.db"
  isDirectory path := path = "site"
  read path :=
    if path = "core/mapping.db" then some ⟨"250 250\n9001 9001\n", true⟩
    else if path = "core/filter.db" then some ⟨"1 3 9001 9001\n", true⟩
    else if path = "site/mapping.db" then some ⟨"999 250 # new\n", true⟩
    else if path = "site/filter.db" then some ⟨"1 3 999 250\n1 4 999 350\n", true⟩
    else none
  configDir := some ":missing:site:"

def siteParameters : ConfigParameters where
  coreConfigDir := "core"
  bankMapFile := ""
  filterEnable := true
  filterFile := ""

def siteAdded : List (Int × Int) := [(350, 999), (250, 9001)]

def siteParsers : ModuleParsersMap Int := { moduleParsers := OrderedMap.empty.insert 999 999 }

def siteBank (tag : UInt16) : BaseStructure := .node tag 0 0x1 [] [] []

theorem dispatch_of_layers_site :
    ((BankToModuleMap.init siteTree siteParameters {}).1 = .ok () ∧
      (FilterDB.init siteTree siteParameters {}).1 = .ok ["ALLOWED ROCs CONFIGURATIONS:",
        "ROC_ID  SLOT_ID  MODULE  BANK_ID", "------  -------  ------  -------",
        "1       3        9001    9001   ", "1       3        999     250    ",
        "1       4        999     350    "]) ∧
    ∀ tag ∈ [250, 350], ∃ m, Layered siteTree siteParameters {} siteAdded 1 (siteBank tag) m ∧
      siteParsers.moduleParsers.find m = some 999 := by
  have hroutes : (BankToModuleMap.init siteTree siteParameters {}).1 = .ok () := by decide +kernel
  have hfilter : (FilterDB.init siteTree siteParameters {}).1 = .ok ["ALLOWED ROCs CONFIGURATIONS:",
      "ROC_ID  SLOT_ID  MODULE  BANK_ID", "------  -------  ------  -------",
      "1       3        9001    9001   ", "1       3        999     250    ",
      "1       4        999     350    "] := by decide +kernel
  have hdispatch := dispatch_of_layers (fun _ _ _ shared => .ok shared) siteTree siteParameters {}
    siteAdded siteParsers rfl hroutes hfilter [] [] ()
  refine ⟨⟨hroutes, hfilter⟩, fun tag htag => ?_⟩
  have hcalled : invocation? (startedServices siteTree siteParameters {} siteAdded siteParsers) 1
      (siteBank tag) = some ⟨999, siteBank tag, bankContext 1 (siteBank tag)⟩ := by
    simp only [List.mem_cons, List.not_mem_nil, or_false] at htag
    rcases htag with rfl | rfl <;> rfl
  obtain ⟨m, hlayered, hparser, -⟩ := (hdispatch.2.1 1 (siteBank tag) _).mp hcalled
  exact ⟨m, hlayered, hparser⟩

end Startup

end EvioEventParser

end JanaExtensions
