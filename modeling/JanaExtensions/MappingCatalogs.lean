import JanaExtensions.RunSelection
import Mathlib.Data.List.TakeWhile

/-! The registry of mapping catalogs, and the table service that takes its catalogs from
there. The first lookup closes the registry, and the first load that succeeds is for good. -/

namespace JanaExtensions

namespace TranslationService

open Failing

structure MappingCatalogs where
  catalogs : List DetectorMappingCatalogProvider := []
  names : List String := []
  frozen : Bool := false
  deriving DecidableEq, Repr

namespace MappingCatalogs

def addCatalog (self : MappingCatalogs) (name directory : String) :
    MappingCatalogs × Except String Unit :=
  if self.frozen then (self, .error "Detector mapping catalog registry is already frozen")
  else if name = "" then (self, .error "Detector mapping catalog provider name is empty")
  else if directory = "" then
    (self, .error ("Detector mapping catalog directory for provider '" ++ name ++ "' is empty"))
  else if name ∈ self.names then
    (self, .error ("Duplicate detector mapping catalog provider '" ++ name ++ "'"))
  else
    ({ self with names := name :: self.names, catalogs := self.catalogs ++ [⟨name, directory⟩] },
      .ok ())

def freeze (self : MappingCatalogs) : MappingCatalogs × List DetectorMappingCatalogProvider :=
  ({ self with frozen := true }, self.catalogs)

theorem setFrozen_eq {self : MappingCatalogs} {frozen : Bool} (h : self.frozen = frozen) :
    { self with frozen } = self := by
  subst h
  rfl

end MappingCatalogs

structure Tables where
  catalogs : MappingCatalogs := {}
  service : Service

def Configuration.asksCatalogs (c : Configuration) : Bool :=
  decide (c.mappingDirectory = "") && c.defaultCatalogs.isEmpty

/-- What the load of the tables does with the registry, also if it fails later. -/
def Tables.askCatalogs (tables : Tables) : Tables :=
  if !tables.service.loaded && tables.service.configuration.asksCatalogs then
    let frozen := tables.catalogs.freeze
    let c := { tables.service.configuration with registeredCatalogs := frozen.2 }
    ⟨frozen.1, { tables.service with configuration := c }⟩
  else tables

def Tables.getTable (fs : FileSystem) (tables : Tables) (runNumber : UInt64) :
    Except String SharedTable × Tables :=
  let tables := tables.askCatalogs
  let r := tables.service.getTable fs runNumber
  (r.1, { tables with service := r.2 })

/-- The files may be others at each lookup. -/
inductive Call where
  | addCatalog (name directory : String)
  | getTable (fs : FileSystem) (runNumber : UInt64)

def Call.isAddCatalog : Call → Bool
  | .addCatalog .. => true
  | .getTable .. => false

def Call.perform (tables : Tables) : Call → Tables
  | .addCatalog name directory =>
    { tables with catalogs := (tables.catalogs.addCatalog name directory).1 }
  | .getTable fs runNumber => (tables.getTable fs runNumber).2

def afterCalls (c : Configuration) (calls : List Call) : Tables :=
  calls.foldl Call.perform { service := { configuration := c } }

def Call.file? : Call → Option FileSystem
  | .addCatalog .. => none
  | .getTable fs _ => some fs

def Call.add (catalogs : MappingCatalogs) : Call → MappingCatalogs
  | .addCatalog name directory => (catalogs.addCatalog name directory).1
  | .getTable .. => catalogs

/-- The catalogs that are accepted before the first lookup. -/
def registered (calls : List Call) : MappingCatalogs :=
  (calls.takeWhile Call.isAddCatalog).foldl Call.add {}

def fixedConfiguration (c : Configuration) (calls : List Call) : Configuration :=
  if c.asksCatalogs then { c with registeredCatalogs := (registered calls).catalogs } else c

/-- The tables of the first lookup that could load them. -/
def firstLoad (c : Configuration) (calls : List Call) : Option (List RunRangeTable) :=
  (calls.filterMap Call.file?).findSome? fun fs =>
    (loadTables fs (fixedConfiguration c calls)).toOption

/-- The tables that a further lookup answers from. -/
def tablesFor (c : Configuration) (calls : List Call) (fs : FileSystem) :
    Except String (List RunRangeTable) :=
  match firstLoad c calls with
  | some runTables => .ok runTables
  | none => loadTables fs (fixedConfiguration c calls)

section Registered

/-- The first call that names a provider together with a directory. -/
def FirstNamed (adds : List Call) (provider : DetectorMappingCatalogProvider) : Prop :=
  ∃ pre post, adds = pre ++ .addCatalog provider.name provider.directory :: post ∧
    provider.name ≠ "" ∧ provider.directory ≠ "" ∧
    ∀ directory, .addCatalog provider.name directory ∈ pre → directory = ""

/-- The registry after calls that no lookup precedes. -/
structure Registers (adds : List Call) (catalogs : MappingCatalogs) : Prop where
  names : catalogs.names = (catalogs.catalogs.map DetectorMappingCatalogProvider.name).reverse
  nodup : catalogs.names.Nodup
  frozen : catalogs.frozen = false
  mem_iff : ∀ provider, provider ∈ catalogs.catalogs ↔ FirstNamed adds provider
  sublist : (catalogs.catalogs.map fun provider =>
    Call.addCatalog provider.name provider.directory).Sublist adds

variable {adds : List Call} {catalogs : MappingCatalogs}

theorem firstNamed_concat {call : Call} {provider : DetectorMappingCatalogProvider} :
    FirstNamed (adds ++ [call]) provider ↔ FirstNamed adds provider ∨
      call = .addCatalog provider.name provider.directory ∧
        provider.name ≠ "" ∧ provider.directory ≠ "" ∧
        ∀ directory, .addCatalog provider.name directory ∈ adds → directory = "" := by
  constructor
  · intro hh
    obtain ⟨pre, post, hsplit, hname, hdirectory, hfirst⟩ := hh
    rcases List.eq_nil_or_concat post with rfl | ⟨rest, last, rfl⟩
    · obtain ⟨rfl, hcall⟩ := List.append_inj' hsplit rfl
      exact .inr ⟨(List.cons.inj hcall).1, hname, hdirectory, hfirst⟩
    · have hsplit' : adds ++ [call] =
          (pre ++ .addCatalog provider.name provider.directory :: rest) ++ [last] := by
        simpa using hsplit
      exact .inl ⟨pre, rest, (List.append_inj' hsplit' rfl).1, hname, hdirectory, hfirst⟩
  · intro hh
    rcases hh with ⟨pre, post, rfl, hrest⟩ | ⟨rfl, hrest⟩
    · exact ⟨pre, post ++ [call], by simp, hrest⟩
    · exact ⟨adds, [], rfl, hrest⟩

theorem Registers.mem_names_iff (h : Registers adds catalogs) {name : String} (hne : name ≠ "") :
    name ∈ catalogs.names ↔ ∃ directory, directory ≠ "" ∧ .addCatalog name directory ∈ adds := by
  rw [h.names, List.mem_reverse, List.mem_map]
  constructor
  · intro hh
    obtain ⟨provider, hmem, rfl⟩ := hh
    obtain ⟨pre, post, rfl, -, hdirectory, -⟩ := (h.mem_iff provider).mp hmem
    exact ⟨provider.directory, hdirectory, by simp⟩
  · intro hh
    obtain ⟨directory, hdirectory, hmem⟩ := hh
    by_contra hnone
    -- The first of these calls would have been accepted.
    have hall : ∀ xs, xs <+: adds → ∀ directory, .addCatalog name directory ∈ xs →
        directory = "" := by
      intro xs
      induction xs using List.reverseRecOn with
      | nil => simp
      | append_singleton xs x ih =>
        intro hprefix
        have hbefore := ih ((List.prefix_append xs [x]).trans hprefix)
        intro directory' hmem'
        rcases List.mem_append.mp hmem' with hmem' | hmem'
        · exact hbefore directory' hmem'
        · by_contra hdirectory'
          obtain rfl := List.mem_singleton.mp hmem'
          obtain ⟨post, rfl⟩ := hprefix
          refine hnone ⟨⟨name, directory'⟩, (h.mem_iff _).mpr ?_, rfl⟩
          exact ⟨xs, post, by simp, hne, hdirectory', hbefore⟩
    exact hdirectory (hall adds (List.prefix_refl adds) directory hmem)

theorem Registers.refused (h : Registers adds catalogs) {name directory : String}
    (hrefused : name = "" ∨ directory = "" ∨ name ∈ catalogs.names) :
    Registers (adds ++ [.addCatalog name directory]) catalogs where
  names := h.names
  nodup := h.nodup
  frozen := h.frozen
  sublist := h.sublist.trans (List.sublist_append_left adds _)
  mem_iff provider := by
    rw [h.mem_iff, firstNamed_concat, or_iff_left]
    intro hh
    obtain ⟨hcall, hname, hdirectory, hfirst⟩ := hh
    obtain ⟨rfl, rfl⟩ := Call.addCatalog.inj hcall
    rcases hrefused with hempty | hempty | hnamed
    · exact hname hempty
    · exact hdirectory hempty
    · obtain ⟨directory, hne, hmem⟩ := (h.mem_names_iff hname).mp hnamed
      exact hne (hfirst directory hmem)

theorem Registers.addCatalog (h : Registers adds catalogs) (name directory : String) :
    Registers (adds ++ [.addCatalog name directory]) (catalogs.addCatalog name directory).1 := by
  rw [MappingCatalogs.addCatalog, h.frozen, if_neg Bool.false_ne_true]
  by_cases hname : name = ""
  · rw [if_pos hname]
    exact h.refused (.inl hname)
  by_cases hdirectory : directory = ""
  · rw [if_neg hname, if_pos hdirectory]
    exact h.refused (.inr (.inl hdirectory))
  by_cases hnamed : name ∈ catalogs.names
  · rw [if_neg hname, if_neg hdirectory, if_pos hnamed]
    exact h.refused (.inr (.inr hnamed))
  rw [if_neg hname, if_neg hdirectory, if_neg hnamed]
  refine ⟨?_, List.nodup_cons.mpr ⟨hnamed, h.nodup⟩, rfl, fun provider => ?_, ?_⟩
  · simp [h.names]
  · rw [List.mem_append, h.mem_iff, firstNamed_concat, List.mem_singleton]
    refine or_congr_right ⟨?_, ?_⟩
    · rintro rfl
      refine ⟨rfl, hname, hdirectory, fun directory' hmem => ?_⟩
      by_contra hne
      exact hnamed ((h.mem_names_iff hname).mpr ⟨directory', hne, hmem⟩)
    · intro hh
      obtain ⟨hcall, -⟩ := hh
      obtain ⟨rfl, rfl⟩ := Call.addCatalog.inj hcall
      rfl
  · rw [List.map_append]
    exact h.sublist.append (List.Sublist.refl _)

theorem registers_foldl (hadds : ∀ call ∈ adds, call.isAddCatalog = true) :
    Registers adds (adds.foldl Call.add {}) := by
  induction adds using List.reverseRecOn with
  | nil =>
    refine ⟨rfl, .nil, rfl, fun provider => ?_, .slnil⟩
    simp [FirstNamed]
  | append_singleton adds call ih =>
    obtain ⟨hbefore, hcall⟩ := Failing.forall_mem_concat.mp hadds
    rw [List.foldl_append]
    cases call with
    | addCatalog name directory => exact (ih hbefore).addCatalog name directory
    | getTable fs runNumber => cases hcall

theorem registers_registered (calls : List Call) :
    Registers (calls.takeWhile Call.isAddCatalog) (registered calls) :=
  registers_foldl fun _ => List.mem_takeWhile_imp

end Registered

section Lookups

variable {c : Configuration} {calls : List Call} {tables : Tables}

theorem asksCatalogs_registered (c : Configuration) (catalogs : List DetectorMappingCatalogProvider) :
    { c with registeredCatalogs := catalogs }.asksCatalogs = c.asksCatalogs := rfl

theorem all_isAddCatalog_concat (calls : List Call) (call : Call) :
    (calls ++ [call]).all Call.isAddCatalog = (calls.all Call.isAddCatalog && call.isAddCatalog) := by
  simp

theorem registered_concat (calls : List Call) (call : Call) :
    registered (calls ++ [call]) =
      if calls.all Call.isAddCatalog then call.add (registered calls) else registered calls := by
  rw [registered, registered, List.takeWhile_append]
  by_cases hall : calls.all Call.isAddCatalog
  · have htake : calls.takeWhile Call.isAddCatalog = calls :=
      List.takeWhile_eq_self_iff.mpr (List.all_eq_true.mp hall)
    rw [if_pos hall, htake, if_pos rfl]
    cases call <;> simp [Call.isAddCatalog, Call.add, List.takeWhile]
  · have hlength : (calls.takeWhile Call.isAddCatalog).length ≠ calls.length := by
      intro hlength
      have htake := (List.takeWhile_prefix Call.isAddCatalog (l := calls)).eq_of_length hlength
      exact hall (List.all_eq_true.mpr (List.takeWhile_eq_self_iff.mp htake))
    rw [if_neg hall, if_neg hlength]

theorem file?_eq_none_iff {call : Call} : call.file? = none ↔ call.isAddCatalog = true := by
  cases call <;> simp [Call.file?, Call.isAddCatalog]

theorem files_eq_nil (hall : calls.all Call.isAddCatalog) : calls.filterMap Call.file? = [] :=
  List.filterMap_eq_nil_iff.mpr fun call hcall =>
    file?_eq_none_iff.mpr (List.all_eq_true.mp hall call hcall)

structure Follows (c : Configuration) (calls : List Call) (tables : Tables) : Prop where
  catalogs : c.asksCatalogs = true →
    tables.catalogs = { registered calls with frozen := !calls.all Call.isAddCatalog }
  unloaded : firstLoad c calls = none → ∃ catalogs,
    tables.service = { configuration := { c with registeredCatalogs := catalogs } } ∧
      (c.asksCatalogs = false → catalogs = c.registeredCatalogs)
  loaded : ∀ runTables, firstLoad c calls = some runTables → tables.service.loaded = true ∧
    (∃ fs, loadTables fs (fixedConfiguration c calls) = .ok runTables) ∧
      tables.service.Consistent (fixedConfiguration c calls) runTables

theorem Follows.askCatalogs_catalogs (h : Follows c calls tables) (hasks : c.asksCatalogs = true)
    (hnone : firstLoad c calls = none) :
    tables.askCatalogs.catalogs = { registered calls with frozen := true } := by
  obtain ⟨catalogs, hservice, -⟩ := h.unloaded hnone
  have hcatalogs := h.catalogs hasks
  rw [Tables.askCatalogs, hservice]
  simp only [asksCatalogs_registered, hasks, Bool.not_false, Bool.and_self, if_true,
    MappingCatalogs.freeze, hcatalogs]

/-- The catalogs of a load are those that were registered before the first lookup. -/
theorem Follows.askCatalogs_service (h : Follows c calls tables) (hnone : firstLoad c calls = none) :
    tables.askCatalogs.service = { configuration := fixedConfiguration c calls } := by
  obtain ⟨catalogs, hservice, hkept⟩ := h.unloaded hnone
  rw [Tables.askCatalogs, hservice, fixedConfiguration]
  by_cases hasks : c.asksCatalogs = true
  · have hcatalogs := h.catalogs hasks
    simp only [asksCatalogs_registered, hasks, Bool.not_false, Bool.and_self, if_true,
      MappingCatalogs.freeze, hcatalogs]
  · have hasks : c.asksCatalogs = false := by simpa using hasks
    rw [hkept hasks]
    simp [hasks, hservice, hkept hasks]

theorem askCatalogs_of_loaded (h : tables.service.loaded = true) : tables.askCatalogs = tables := by
  rw [Tables.askCatalogs, h]
  rfl

theorem getTable_of_loaded {service : Service} (h : service.loaded = true) (fs fs' : FileSystem)
    (runNumber : UInt64) : service.getTable fs runNumber = service.getTable fs' runNumber := by
  rw [Service.getTable, Service.getTable, Service.load, Service.load, if_pos h, if_pos h]

theorem fixedConfiguration_congr {calls' : List Call} (h : registered calls' = registered calls) :
    fixedConfiguration c calls' = fixedConfiguration c calls := by
  rw [fixedConfiguration, fixedConfiguration, h]

theorem fixedConfiguration_addCatalog (hall : ¬ calls.all Call.isAddCatalog)
    (name directory : String) : fixedConfiguration c (calls ++ [.addCatalog name directory]) =
      fixedConfiguration c calls := by
  refine fixedConfiguration_congr ?_
  rw [registered_concat, if_neg hall]

theorem firstLoad_addCatalog (c : Configuration) (calls : List Call) (name directory : String) :
    firstLoad c (calls ++ [.addCatalog name directory]) = firstLoad c calls := by
  have hfiles : (calls ++ [Call.addCatalog name directory]).filterMap Call.file? =
      calls.filterMap Call.file? := by
    rw [List.filterMap_append]
    exact List.append_nil _
  rw [firstLoad, firstLoad, hfiles]
  by_cases hall : calls.all Call.isAddCatalog
  · rw [files_eq_nil hall]
    rfl
  · rw [fixedConfiguration_addCatalog hall]

theorem registered_getTable (calls : List Call) (fs : FileSystem) (runNumber : UInt64) :
    registered (calls ++ [.getTable fs runNumber]) = registered calls := by
  rw [registered_concat]
  split <;> rfl

theorem firstLoad_getTable (c : Configuration) (calls : List Call) (fs : FileSystem)
    (runNumber : UInt64) : firstLoad c (calls ++ [.getTable fs runNumber]) =
      (firstLoad c calls).or (loadTables fs (fixedConfiguration c calls)).toOption := by
  rw [firstLoad, fixedConfiguration_congr (registered_getTable calls fs runNumber),
    List.filterMap_append, List.findSome?_append, firstLoad]
  congr 1
  simp [Call.file?]

theorem all_isAddCatalog_getTable (calls : List Call) (fs : FileSystem) (runNumber : UInt64) :
    (calls ++ [Call.getTable fs runNumber]).all Call.isAddCatalog = false := by
  simp [Call.isAddCatalog]

theorem firstLoad_getTable_of_some {c : Configuration} {calls : List Call}
    {runTables : List RunRangeTable} (hfirst : firstLoad c calls = some runTables) (fs : FileSystem)
    (runNumber : UInt64) : firstLoad c (calls ++ [.getTable fs runNumber]) = some runTables := by
  rw [firstLoad_getTable, hfirst]
  rfl

theorem firstLoad_getTable_of_tablesFor {c : Configuration} {calls : List Call} {fs : FileSystem}
    {runTables : List RunRangeTable} (htables : tablesFor c calls fs = .ok runTables)
    (runNumber : UInt64) : firstLoad c (calls ++ [.getTable fs runNumber]) = some runTables := by
  rw [firstLoad_getTable]
  rw [tablesFor] at htables
  cases hfirst : firstLoad c calls with
  | some runTables' =>
    rw [hfirst] at htables
    rw [Except.ok.inj htables]
    rfl
  | none =>
    rw [hfirst] at htables
    dsimp only at htables
    rw [htables]
    rfl

theorem Follows.addCatalog (h : Follows c calls tables) (name directory : String) :
    Follows c (calls ++ [.addCatalog name directory])
      ((Call.addCatalog name directory).perform tables) where
  catalogs hasks := by
    have hcatalogs := h.catalogs hasks
    rw [registered_concat, all_isAddCatalog_concat]
    by_cases hall : calls.all Call.isAddCatalog
    · have hself : tables.catalogs = registered calls := by
        rw [hcatalogs, hall]
        exact MappingCatalogs.setFrozen_eq (registers_registered calls).frozen
      have hfrozen := ((registers_registered calls).addCatalog name directory).frozen
      rw [if_pos hall, hall]
      change (tables.catalogs.addCatalog name directory).1 = _
      rw [hself]
      exact (MappingCatalogs.setFrozen_eq hfrozen).symm
    · have hall : calls.all Call.isAddCatalog = false := by simpa using hall
      rw [if_neg (by rw [hall]; decide), hall]
      change (tables.catalogs.addCatalog name directory).1 = _
      rw [hcatalogs, hall]
      rfl
  unloaded hnone := by
    rw [firstLoad_addCatalog] at hnone
    exact h.unloaded hnone
  loaded runTables hsome := by
    rw [firstLoad_addCatalog] at hsome
    have hall : ¬ calls.all Call.isAddCatalog := by
      intro hall
      rw [firstLoad, files_eq_nil hall] at hsome
      cases hsome
    rw [fixedConfiguration_addCatalog hall]
    exact h.loaded runTables hsome

theorem Follows.getTable_loaded (h : Follows c calls tables) {runTables : List RunRangeTable}
    (hload : firstLoad c calls = some runTables) (fs : FileSystem) (runNumber : UInt64) :
    (tables.getTable fs runNumber).1 =
      (tablesFor c calls fs >>= fun runTables => answer runTables runNumber) ∧
    Follows c (calls ++ [.getTable fs runNumber]) (tables.getTable fs runNumber).2 := by
  have hregistered := registered_getTable calls fs runNumber
  have hfixed := fixedConfiguration_congr (c := c) hregistered
  have hfirst := firstLoad_getTable c calls fs runNumber
  have hlookup := all_isAddCatalog_getTable calls fs runNumber
  obtain ⟨hl, ⟨fs', htables⟩, hconsistent⟩ := h.loaded runTables hload
  have hcached := (hconsistent.2 hl).2
  obtain ⟨hanswer, hafter, hl'⟩ :=
    hconsistent.getTable hcached htables (loadTables_ordered htables) runNumber
  rw [getTable_of_loaded hl fs' fs] at hanswer hafter hl'
  have hask := askCatalogs_of_loaded hl
  refine ⟨?_, fun hasks => ?_, fun hnone => ?_, fun runTables' hsome => ?_⟩
  · rw [Tables.getTable, hask, tablesFor, hload]
    exact hanswer
  · have hnotall : calls.all Call.isAddCatalog = false := by
      by_contra hall
      rw [firstLoad, files_eq_nil (by simpa using hall)] at hload
      cases hload
    have hcatalogs := h.catalogs hasks
    rw [hnotall] at hcatalogs
    rw [Tables.getTable, hask, hregistered, hlookup, hcatalogs]
  · rw [hfirst, hload] at hnone
    cases hnone
  · rw [hfirst, hload] at hsome
    obtain rfl := Option.some.inj hsome
    rw [hfixed, Tables.getTable, hask]
    exact ⟨hl', ⟨fs', htables⟩, hafter⟩

-- The lookup that loads the tables, or fails and leaves the load to the next one.
theorem Follows.getTable_unloaded (h : Follows c calls tables) (hload : firstLoad c calls = none)
    (fs : FileSystem) (runNumber : UInt64) :
    (tables.getTable fs runNumber).1 =
      (tablesFor c calls fs >>= fun runTables => answer runTables runNumber) ∧
    Follows c (calls ++ [.getTable fs runNumber]) (tables.getTable fs runNumber).2 := by
  have hregistered := registered_getTable calls fs runNumber
  have hfixed := fixedConfiguration_congr (c := c) hregistered
  have hfirst := firstLoad_getTable c calls fs runNumber
  have hlookup := all_isAddCatalog_getTable calls fs runNumber
  have hservice := h.askCatalogs_service hload
  have hcatalogs (hasks : c.asksCatalogs = true) :
      (tables.getTable fs runNumber).2.catalogs = { registered calls with frozen := true } := by
    rw [← h.askCatalogs_catalogs hasks hload]
    rfl
  have hgetTable : (tables.getTable fs runNumber).1 =
        (({ configuration := fixedConfiguration c calls } : Service).getTable fs runNumber).1 ∧
      (tables.getTable fs runNumber).2.service =
        (({ configuration := fixedConfiguration c calls } : Service).getTable fs runNumber).2 := by
    rw [Tables.getTable, hservice]
    exact ⟨rfl, rfl⟩
  obtain ⟨hresult, hafter⟩ := hgetTable
  rw [hload, Option.none_or] at hfirst
  rw [tablesFor, hload]
  cases htables : loadTables fs (fixedConfiguration c calls) with
  | error message =>
    have herror : ({ configuration := fixedConfiguration c calls } : Service).getTable fs
        runNumber = (.error message, { configuration := fixedConfiguration c calls }) := by
      rw [Service.getTable, Service.load, if_neg Bool.false_ne_true, htables]
      rfl
    rw [herror] at hresult hafter
    rw [htables] at hfirst
    refine ⟨hresult, fun hasks => ?_, fun _ => ?_, fun runTables' hsome => ?_⟩
    · rw [hcatalogs hasks, hregistered, hlookup]
      rfl
    · rw [hafter]
      by_cases hasks : c.asksCatalogs = true
      · refine ⟨(registered calls).catalogs, ?_, fun hnot => by rw [hasks] at hnot; cases hnot⟩
        rw [fixedConfiguration, if_pos hasks]
      · exact ⟨c.registeredCatalogs, by rw [fixedConfiguration, if_neg hasks], fun _ => rfl⟩
    · rw [hfirst] at hsome
      cases hsome
  | ok runTables =>
    have hstart : Service.Consistent (fixedConfiguration c calls) runTables
        { configuration := fixedConfiguration c calls } :=
      ⟨rfl, fun hl => absurd hl (by simp)⟩
    obtain ⟨hanswer, hconsistent, hl⟩ :=
      hstart.getTable (by simp) htables (loadTables_ordered htables) runNumber
    rw [htables] at hfirst
    refine ⟨hresult.trans hanswer, fun hasks => ?_, fun hnone => ?_, fun runTables' hsome => ?_⟩
    · rw [hcatalogs hasks, hregistered, hlookup]
      rfl
    · rw [hfirst] at hnone
      cases hnone
    · rw [hfirst] at hsome
      obtain rfl := Option.some.inj hsome
      rw [hfixed, hafter]
      exact ⟨hl, ⟨fs, htables⟩, hconsistent⟩

theorem Follows.getTable (h : Follows c calls tables) (fs : FileSystem) (runNumber : UInt64) :
    (tables.getTable fs runNumber).1 =
      (tablesFor c calls fs >>= fun runTables => answer runTables runNumber) ∧
    Follows c (calls ++ [.getTable fs runNumber]) (tables.getTable fs runNumber).2 := by
  cases hload : firstLoad c calls with
  | some runTables => exact h.getTable_loaded hload fs runNumber
  | none => exact h.getTable_unloaded hload fs runNumber

theorem follows_afterCalls (c : Configuration) (calls : List Call) :
    Follows c calls (afterCalls c calls) := by
  induction calls using List.reverseRecOn with
  | nil => exact ⟨fun _ => rfl, fun _ => ⟨c.registeredCatalogs, rfl, fun _ => rfl⟩, fun _ => nofun⟩
  | append_singleton calls call ih =>
    rw [afterCalls, List.foldl_append]
    cases call with
    | addCatalog name directory => exact ih.addCatalog name directory
    | getTable fs runNumber => exact (ih.getTable fs runNumber).2

/-- Over every sequence of registrations and lookups, with any files at each lookup: a lookup
answers from the tables of the first load that succeeded, or loads them. Every load, also after
a failed one, takes the catalogs that were accepted before the first lookup, which are those
with the first directory for their name, in the order of the calls. From the first lookup on
each registration is refused, if the lookup has taken its catalogs from the registry. -/
theorem lookups_after_registrations (c : Configuration) (calls : List Call) :
    (∀ fs runNumber, ((afterCalls c calls).getTable fs runNumber).1 =
      (tablesFor c calls fs >>= fun runTables => answer runTables runNumber)) ∧
    (∀ provider, provider ∈ (registered calls).catalogs ↔
      FirstNamed (calls.takeWhile Call.isAddCatalog) provider) ∧
    ((registered calls).catalogs.map DetectorMappingCatalogProvider.name).Nodup ∧
    ((registered calls).catalogs.map fun provider =>
      Call.addCatalog provider.name provider.directory).Sublist calls ∧
    (c.asksCatalogs = true → (∃ call ∈ calls, call.isAddCatalog = false) →
      ∀ name directory, (afterCalls c calls).catalogs.addCatalog name directory =
        ((afterCalls c calls).catalogs,
          .error "Detector mapping catalog registry is already frozen")) := by
  have hregistered := registers_registered calls
  have hfollows := follows_afterCalls c calls
  refine ⟨fun fs runNumber => (hfollows.getTable fs runNumber).1, hregistered.mem_iff, ?_,
    hregistered.sublist.trans (List.takeWhile_sublist _), fun hasks hh name directory => ?_⟩
  · have hnodup := hregistered.nodup
    rwa [hregistered.names, List.nodup_reverse] at hnodup
  · obtain ⟨call, hcall, hlookup⟩ := hh
    have hall : calls.all Call.isAddCatalog = false :=
      List.all_eq_false.mpr ⟨call, hcall, by rw [hlookup]; decide⟩
    have hfrozen : (afterCalls c calls).catalogs.frozen = true := by
      rw [hfollows.catalogs hasks, hall]
      rfl
    rw [MappingCatalogs.addCatalog, if_pos hfrozen]

/-- A name without a directory, two directories for a name, and a late catalog. -/
example (fs : FileSystem) : (registered [.addCatalog "hms" "", .addCatalog "hms" "/hms",
    .addCatalog "hms" "/other", .getTable fs 1, .addCatalog "shms" "/shms"]).catalogs =
      [⟨"hms", "/hms"⟩] := by
  rfl

end Lookups

end TranslationService

end JanaExtensions
