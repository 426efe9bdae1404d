import JanaExtensions.MappingCatalogs
import JanaExtensions.RegistryRuns

/-! The event processors of the translation. One translates the events in any order, the other
writes what the routes have made of an event to the files of the dump. -/

namespace JanaExtensions

namespace DetectorTranslators

open Failing HitTypes TranslationService RelatedLists

class TextStream (S : Type) where
  opened : S
  write : S → String → S

/-- The output directory, and the errors that the operating system answers with when a
directory is created or a file is opened there. -/
structure DumpDirectory where
  path : Path
  createDirectories : Path → Option String
  openFile : Path → Option String

structure TranslationDump (T S : Type) [HitTypes T] where
  outputsOpened : Bool := false
  writers : List (Output T S) := []
  outputs : List S := []

section Processors

variable {T S : Type} [HitTypes T] [TextStream S]

def Output.headerLine (writer : Output T S) : S :=
  TextStream.write (TextStream.write TextStream.opened writer.header) "\n"

def Output.openOutput (directory : DumpDirectory) (writer : Output T S) : Except String S :=
  let detectorDirectory := directory.path / ⟨writer.detector⟩
  match directory.createDirectories detectorDirectory with
  | some message =>
    .error ("Failed to create detector dump directory '" ++ detectorDirectory.string ++ "': " ++
      message)
  | none =>
    let path := detectorDirectory / ⟨writer.filename⟩
    match directory.openFile path with
    | some message =>
      .error ("Failed to open detector dump output '" ++ path.string ++ "': " ++ message)
    | none => .ok writer.headerLine

def TranslationDump.writeEvent (dump : TranslationDump T S) (event : JEvent T) :
    TranslationDump T S :=
  { dump with
    outputs := List.zipWith (fun writer output => writer.writeEvent output event) dump.writers
      dump.outputs }

def Output.file (writer : Output T S) (contents : List (JEvent T)) : S :=
  contents.foldl writer.writeEvent writer.headerLine

theorem mapM_openOutput {directory : DumpDirectory} {writers : List (Output T S)} {outputs : List S}
    (h : writers.mapM (Output.openOutput directory) = .ok outputs) :
    outputs = writers.map Output.headerLine := by
  induction writers generalizing outputs with
  | nil => exact (Except.ok.inj h).symm
  | cons writer writers ih =>
    rw [List.mapM_cons] at h
    obtain ⟨output, hopen, h⟩ := bind_eq_ok.mp h
    obtain ⟨rest, hrest, h⟩ := bind_eq_ok.mp h
    obtain rfl := Except.ok.inj h
    rw [List.map_cons, ← ih hrest]
    rw [Output.openOutput] at hopen
    split at hopen
    · cases hopen
    · dsimp only at hopen
      split at hopen
      · cases hopen
      · rw [Except.ok.inj hopen]

theorem writeEvent_files (writers : List (Output T S)) (contents : List (JEvent T))
    (event : JEvent T) :
    (⟨true, writers, writers.map fun writer => writer.file contents⟩ :
      TranslationDump T S).writeEvent event =
      ⟨true, writers, writers.map fun writer => writer.file (contents ++ [event])⟩ := by
  rw [TranslationDump.writeEvent, List.zipWith_map_right, List.zipWith_self]
  congr 1
  refine List.map_congr_left fun writer _ => ?_
  rw [Output.file, Output.file, List.foldl_append]
  rfl

theorem file_eq_foldl {ι : Type} (writer : Output T S) {is : List ι} {contents : ι → JEvent T}
    {rows : S → ι → S}
    (h : ∀ i ∈ is, ∀ stream, writer.writeEvent stream (contents i) = rows stream i) :
    writer.file (is.map contents) = is.foldl rows writer.headerLine := by
  rw [Output.file, List.foldl_map]
  exact List.foldl_ext _ _ _ fun stream i hi => h i hi stream

variable [DecidableEq T]

def TranslationDump.openOutputs (directory : DumpDirectory) (registry : DetectorTranslatorsMap T S)
    (dump : TranslationDump T S) :
    Except String (DetectorTranslatorsMap T S × TranslationDump T S) :=
  if dump.outputsOpened then .ok (registry, dump)
  else do
    let (registry, writers) := registry.getDumpOutputs
    let outputs ← writers.mapM (Output.openOutput directory)
    .ok (registry, ⟨true, writers, outputs⟩)

def TranslationDump.processSequential (directory : DumpDirectory)
    (registry : DetectorTranslatorsMap T S) (dump : TranslationDump T S) (event : JEvent T) :
    Except String (DetectorTranslatorsMap T S × TranslationDump T S) := do
  let (registry, dump) ← dump.openOutputs directory registry
  .ok (registry, dump.writeEvent event)

/-- The processor that translates an event. Run numbers are signed. -/
def processParallel (fs : FileSystem) (order : IterationOrder T) (tables : Tables)
    (registry : DetectorTranslatorsMap T S) (runNumber : Int) (event : JEvent T) :
    Except String (Tables × DetectorTranslatorsMap T S × JEvent T) := do
  let (table, tables) := tables.getTable fs (UInt64.ofInt runNumber)
  let table ← table
  let (registry, event) := registry.translateEvent order table.table event
  let event ← event
  .ok (tables, registry, event)

end Processors

section Program

variable {ι T S : Type} [DecidableEq T] [HitTypes T]

structure Program (ι T S : Type) [DecidableEq T] [HitTypes T] where
  tables : Tables
  registry : DetectorTranslatorsMap T S := {}
  dump : TranslationDump T S := {}
  events : ι → JEvent T

inductive Action (ι T S : Type) [DecidableEq T] [HitTypes T] where
  | addCatalog (name directory : String)
  | useRegistry (operation : Operation T S)
  | processParallel (fs : FileSystem) (order : IterationOrder T) (i : ι)
  | processSequential (i : ι)

/-- An exception of a processor stops the program. -/
def Action.perform [DecidableEq ι] [TextStream S] (directory : DumpDirectory)
    (runNumber : ι → Int) (program : Program ι T S) : Action ι T S → Except String (Program ι T S)
  | .addCatalog name path =>
    .ok { program with tables := (Call.addCatalog name path).perform program.tables }
  | .useRegistry operation => .ok { program with registry := operation.apply program.registry }
  | .processParallel fs order i => do
    let (tables, registry, event) ←
      DetectorTranslators.processParallel fs order program.tables program.registry (runNumber i)
        (program.events i)
    .ok { program with tables, registry, events := Function.update program.events i event }
  | .processSequential i => do
    let (registry, dump) ←
      program.dump.processSequential directory program.registry (program.events i)
    .ok { program with registry, dump }

def run [DecidableEq ι] [TextStream S] (directory : DumpDirectory) (runNumber : ι → Int)
    (c : Configuration) (events : ι → JEvent T) (actions : List (Action ι T S)) :
    Except String (Program ι T S) :=
  actions.foldlM (Action.perform directory runNumber)
    { tables := { service := { configuration := c } }, events }

def Action.translates? : Action ι T S → Option ι
  | .processParallel _ _ i => some i
  | _ => none

def Action.dumps? : Action ι T S → Option ι
  | .processSequential i => some i
  | _ => none

def Action.tableCall? (runNumber : ι → Int) : Action ι T S → Option Call
  | .addCatalog name path => some (.addCatalog name path)
  | .processParallel fs _ i => some (.getTable fs (UInt64.ofInt (runNumber i)))
  | _ => none

abbrev translated (actions : List (Action ι T S)) : List ι := actions.filterMap Action.translates?

abbrev dumped (actions : List (Action ι T S)) : List ι := actions.filterMap Action.dumps?

abbrev tableCalls (runNumber : ι → Int) (actions : List (Action ι T S)) : List Call :=
  actions.filterMap (Action.tableCall? runNumber)

/-- An event is processed in parallel once, and sequentially only after that. -/
structure InOrder (actions : List (Action ι T S)) : Prop where
  once : (translated actions).Nodup
  before : ∀ pre i post, actions = pre ++ .processSequential i :: post → i ∈ translated pre

theorem InOrder.of_take {actions : List (Action ι T S)} (honce : (translated actions).Nodup)
    (hbefore : ∀ n < actions.length, ∀ i ∈ actions[n]?.bind Action.dumps?,
      i ∈ translated (actions.take n)) : InOrder actions := by
  refine ⟨honce, fun pre i post hsplit => ?_⟩
  have hi := hbefore pre.length (by simp [hsplit]) i (by simp [hsplit, Action.dumps?])
  rwa [hsplit, List.take_left' rfl] at hi

theorem InOrder.of_concat {actions : List (Action ι T S)} {action : Action ι T S}
    (h : InOrder (actions ++ [action])) : InOrder actions where
  once := by
    have honce := h.once
    rw [translated, List.filterMap_append] at honce
    exact (List.nodup_append'.mp honce).1
  before := by
    intro pre i post hsplit
    exact h.before pre i (post ++ [action]) (by rw [hsplit]; simp)

theorem InOrder.notMem_translated {actions : List (Action ι T S)} {fs : FileSystem}
    {order : IterationOrder T} {i : ι} (h : InOrder (actions ++ [.processParallel fs order i])) :
    i ∉ translated actions := by
  have honce := h.once
  rw [translated, List.filterMap_append] at honce
  exact fun hmem => (List.nodup_append'.mp honce).2.2 hmem (by simp [Action.translates?])

theorem InOrder.translated_of_dumped {actions : List (Action ι T S)} (h : InOrder actions) {i : ι}
    (hi : i ∈ dumped actions) : i ∈ translated actions := by
  obtain ⟨action, hmem, haction⟩ := List.mem_filterMap.mp hi
  cases action with
  | processSequential j =>
    obtain rfl := Option.some.inj haction
    obtain ⟨pre, post, rfl⟩ := List.append_of_mem hmem
    have hbefore := h.before pre j post rfl
    rw [translated, List.filterMap_append]
    exact List.mem_append_left _ hbefore
  | addCatalog => cases haction
  | useRegistry => cases haction
  | processParallel => cases haction

theorem filterMap_concat_of_none {α β : Type*} {f : α → Option β} {xs : List α} {x : α}
    (h : f x = none) : (xs ++ [x]).filterMap f = xs.filterMap f := by
  simp [h]

theorem filterMap_concat_of_some {α β : Type*} {f : α → Option β} {xs : List α} {x : α} {y : β}
    (h : f x = some y) : (xs ++ [x]).filterMap f = xs.filterMap f ++ [y] := by
  simp [h]

theorem Kept.useRegistry {actions : List (Action ι T S)} {calls : List (Registration T S)} {registry : DetectorTranslatorsMap T S}
    (h : Kept calls registry) (hcalls : ∀ call ∈ calls, .useRegistry (.addTranslator call) ∈ actions)
    (operation : Operation T S) : ∃ calls', Kept calls' (operation.apply registry) ∧
      ∀ call ∈ calls', .useRegistry (.addTranslator call) ∈ actions ++ [.useRegistry operation] := by
  have hkept : ∀ call ∈ calls,
      .useRegistry (.addTranslator call) ∈ actions ++ [.useRegistry operation] :=
    fun call hcall => List.mem_append_left _ (hcalls call hcall)
  cases operation with
  | addTranslator r =>
    have hpaths := h.paths.addTranslator r
    cases hresult : (registry.addTranslator r).2 with
    | ok u =>
      refine ⟨calls ++ [r], ⟨h.built.accepted r hresult, hpaths⟩, ?_⟩
      exact forall_mem_concat.mpr ⟨hkept, by simp⟩
    | error message => exact ⟨calls, ⟨h.built.refused r hresult, hpaths⟩, hkept⟩
  | freeze => exact ⟨calls, ⟨h.built.frozen, h.paths⟩, hkept⟩
  | getDumpOutputs => exact ⟨calls, ⟨h.built.frozen, h.paths⟩, hkept⟩
  | translateEvent order table event => exact ⟨calls, ⟨h.built.frozen, h.paths⟩, hkept⟩

theorem processParallel_eq_ok {fs : FileSystem} {order : IterationOrder T} {tables tables' : Tables}
    {registry registry' : DetectorTranslatorsMap T S} {number : Int} {event event' : JEvent T}
    (h : processParallel fs order tables registry number event = .ok (tables', registry', event')) :
    ∃ table, (tables.getTable fs (UInt64.ofInt number)).1 = .ok table ∧
      tables' = (tables.getTable fs (UInt64.ofInt number)).2 ∧ registry' = registry.freeze ∧
      (registry.translateEvent order table.table event).2 = .ok event' := by
  rw [processParallel] at h
  obtain ⟨table, htable, h⟩ := bind_eq_ok.mp h
  obtain ⟨result, hresult, h⟩ := bind_eq_ok.mp h
  obtain ⟨rfl, hrest⟩ := Prod.mk.inj (Except.ok.inj h)
  obtain ⟨rfl, rfl⟩ := Prod.mk.inj hrest
  exact ⟨table, htable, rfl, rfl, hresult⟩

/-- A translation of the event with the table for its run, which all events share. -/
def TranslatedBy (runTables : List RunRangeTable) (registry : DetectorTranslatorsMap T S)
    (number : Int) (event event' : JEvent T) : Prop :=
  ∃ table order, answer runTables (UInt64.ofInt number) = .ok table ∧
    (registry.translateEvent order table.table event).2 = .ok event'

theorem TranslatedBy.freeze {runTables : List RunRangeTable} {registry : DetectorTranslatorsMap T S}
    {number : Int} {event event' : JEvent T}
    (h : TranslatedBy runTables registry number event event') :
    TranslatedBy runTables registry.freeze number event event' := h

end Program

section Runs

variable {ι T S : Type} [DecidableEq T] [HitTypes T] [TextStream S]
  {directory : DumpDirectory} {runNumber : ι → Int} {c : Configuration} {events : ι → JEvent T}
  {actions : List (Action ι T S)} {program program' : Program ι T S}

theorem openOutputs_eq_ok {registry registry' : DetectorTranslatorsMap T S}
    {dump dump' : TranslationDump T S} (hopen : dump.outputsOpened = false)
    (h : dump.openOutputs directory registry = .ok (registry', dump')) :
    registry' = registry.freeze ∧
      dump' = ⟨true, registry.dump.outputs, registry.dump.outputs.map Output.headerLine⟩ := by
  rw [TranslationDump.openOutputs, hopen, if_neg Bool.false_ne_true] at h
  obtain ⟨outputs, houtputs, h⟩ := bind_eq_ok.mp h
  obtain ⟨rfl, rfl⟩ := Prod.mk.inj (Except.ok.inj h)
  rw [mapM_openOutput houtputs]
  exact ⟨rfl, rfl⟩

/-- What the actions leave of the services, of the events and of the dump. -/
structure RunsTo (runNumber : ι → Int) (c : Configuration) (events : ι → JEvent T)
    (actions : List (Action ι T S)) (program : Program ι T S) : Prop where
  tables : Follows c (tableCalls runNumber actions) program.tables
  kept : ∃ calls, Kept calls program.registry ∧
    ∀ call ∈ calls, .useRegistry (.addTranslator call) ∈ actions
  untouched : ∀ i ∉ translated actions, program.events i = events i
  translation : ∀ i ∈ translated actions, program.registry.frozen = true ∧
    ∃ runTables, firstLoad c (tableCalls runNumber actions) = some runTables ∧
      TranslatedBy runTables program.registry (runNumber i) (events i) (program.events i)
  unopened : dumped actions = [] → program.dump = {}
  opened : dumped actions ≠ [] → program.dump = ⟨true, program.registry.dump.outputs,
    program.registry.dump.outputs.map fun writer =>
      writer.file ((dumped actions).map program.events)⟩

theorem runsTo_start (c : Configuration) (events : ι → JEvent T) :
    RunsTo runNumber c events ([] : List (Action ι T S))
      { tables := { service := { configuration := c } }, events } where
  tables := follows_afterCalls c []
  kept := ⟨[], ⟨.empty, rfl, .nil⟩, by simp⟩
  untouched _ _ := rfl
  translation := by simp
  unopened _ := rfl
  opened := by simp

theorem RunsTo.addCatalog (h : RunsTo runNumber c events actions program) (name path : String) :
    RunsTo runNumber c events (actions ++ [.addCatalog name path])
      { program with tables := (Call.addCatalog name path).perform program.tables } := by
  have hcalls : tableCalls runNumber (actions ++ [.addCatalog name path]) =
      tableCalls runNumber actions ++ [.addCatalog name path] := filterMap_concat_of_some rfl
  have htranslated : translated (actions ++ [.addCatalog name path]) = translated actions :=
    filterMap_concat_of_none rfl
  have hdumped : dumped (actions ++ [.addCatalog name path]) = dumped actions :=
    filterMap_concat_of_none rfl
  refine ⟨hcalls ▸ h.tables.addCatalog name path, ?_, htranslated ▸ h.untouched, fun i hi => ?_,
    hdumped ▸ h.unopened, hdumped ▸ h.opened⟩
  · obtain ⟨calls, hkept, hcalls⟩ := h.kept
    exact ⟨calls, hkept, fun call hcall => List.mem_append_left _ (hcalls call hcall)⟩
  · obtain ⟨hfrozen, runTables, hload, htranslated⟩ := h.translation i (htranslated ▸ hi)
    rw [hcalls, firstLoad_addCatalog]
    exact ⟨hfrozen, runTables, hload, htranslated⟩

/-- Before the first event the registry is open to its plugins. After that it is frozen. -/
theorem RunsTo.useRegistry (h : RunsTo runNumber c events actions program)
    (horder : InOrder actions) (operation : Operation T S) :
    RunsTo runNumber c events (actions ++ [.useRegistry operation])
      { program with registry := operation.apply program.registry } := by
  have hcalls : tableCalls runNumber (actions ++ [.useRegistry operation]) =
      tableCalls runNumber actions := filterMap_concat_of_none rfl
  have htranslated : translated (actions ++ [.useRegistry operation]) = translated actions :=
    filterMap_concat_of_none rfl
  have hdumped : dumped (actions ++ [.useRegistry operation]) = dumped actions :=
    filterMap_concat_of_none rfl
  refine ⟨hcalls ▸ h.tables, ?_, htranslated ▸ h.untouched, fun i hi => ?_,
    hdumped ▸ h.unopened, fun hsome => ?_⟩
  · obtain ⟨calls, hkept, hcalls⟩ := h.kept
    exact hkept.useRegistry hcalls operation
  · obtain ⟨hfrozen, hevent⟩ := h.translation i (htranslated ▸ hi)
    rw [hcalls]
    simp only [apply_of_frozen hfrozen operation]
    exact ⟨hfrozen, hevent⟩
  · rw [hdumped] at hsome ⊢
    obtain ⟨i, hi⟩ := List.exists_mem_of_ne_nil _ hsome
    obtain ⟨hfrozen, -⟩ := h.translation i (horder.translated_of_dumped hi)
    simp only [apply_of_frozen hfrozen operation]
    exact h.opened hsome

theorem RunsTo.processSequential (h : RunsTo runNumber c events actions program) {i : ι}
    (horder : InOrder (actions ++ [.processSequential i]))
    {registry : DetectorTranslatorsMap T S} {dump : TranslationDump T S}
    (hok : program.dump.processSequential directory program.registry (program.events i) =
      .ok (registry, dump)) :
    RunsTo runNumber c events (actions ++ [.processSequential i])
      { program with registry, dump } := by
  have hi : i ∈ translated actions := horder.before actions i [] rfl
  obtain ⟨hfrozen, -⟩ := h.translation i hi
  have hfreeze : program.registry.freeze = program.registry := by
    rw [DetectorTranslatorsMap.freeze, ← hfrozen]
  have hresult : registry = program.registry ∧ dump = ⟨true, program.registry.dump.outputs,
      program.registry.dump.outputs.map fun writer =>
        writer.file ((dumped actions ++ [i]).map program.events)⟩ := by
    rw [TranslationDump.processSequential] at hok
    obtain ⟨⟨registry', dump'⟩, hopened, hok⟩ := bind_eq_ok.mp hok
    obtain ⟨rfl, rfl⟩ := Prod.mk.inj (Except.ok.inj hok)
    rw [List.map_append, List.map_singleton, ← writeEvent_files]
    by_cases hdumped : dumped actions = []
    · have hclosed : program.dump.outputsOpened = false := by rw [h.unopened hdumped]
      obtain ⟨rfl, rfl⟩ := openOutputs_eq_ok hclosed hopened
      rw [hdumped]
      exact ⟨hfreeze, rfl⟩
    · have hdump := h.opened hdumped
      rw [TranslationDump.openOutputs, if_pos (by rw [hdump])] at hopened
      obtain ⟨rfl, rfl⟩ := Prod.mk.inj (Except.ok.inj hopened)
      rw [← hdump]
      exact ⟨rfl, rfl⟩
  obtain ⟨rfl, rfl⟩ := hresult
  have hdumped : dumped (actions ++ [.processSequential i]) = dumped actions ++ [i] :=
    filterMap_concat_of_some rfl
  have htranslated : translated (actions ++ [.processSequential i]) = translated actions :=
    filterMap_concat_of_none rfl
  have hcalls : tableCalls runNumber (actions ++ [.processSequential i]) =
      tableCalls runNumber actions := filterMap_concat_of_none rfl
  refine ⟨hcalls ▸ h.tables, ?_, htranslated ▸ h.untouched, fun j hj => ?_, fun hnone => ?_,
    fun _ => by rw [hdumped]⟩
  · obtain ⟨calls, hkept, hcalls⟩ := h.kept
    exact ⟨calls, hkept, fun call hcall => List.mem_append_left _ (hcalls call hcall)⟩
  · rw [hcalls]
    exact h.translation j (htranslated ▸ hj)
  · rw [hdumped] at hnone
    simp at hnone

variable [DecidableEq ι]

theorem RunsTo.processParallel (h : RunsTo runNumber c events actions program)
    {fs : FileSystem} {order : IterationOrder T} {i : ι}
    (horder : InOrder (actions ++ [.processParallel fs order i])) {tables : Tables}
    {registry : DetectorTranslatorsMap T S} {event : JEvent T}
    (hok : DetectorTranslators.processParallel fs order program.tables program.registry (runNumber i)
      (program.events i) = .ok (tables, registry, event)) :
    RunsTo runNumber c events (actions ++ [.processParallel fs order i])
      { program with tables, registry, events := Function.update program.events i event } := by
  obtain ⟨table, htable, rfl, rfl, hevent⟩ := processParallel_eq_ok hok
  have hnew := horder.notMem_translated
  obtain ⟨hanswer, hfollows⟩ := h.tables.getTable fs (UInt64.ofInt (runNumber i))
  rw [hanswer] at htable
  obtain ⟨runTables, htables, htable⟩ := bind_eq_ok.mp htable
  have hcalls : tableCalls runNumber (actions ++ [.processParallel fs order i]) =
      tableCalls runNumber actions ++ [.getTable fs (UInt64.ofInt (runNumber i))] :=
    filterMap_concat_of_some rfl
  have htranslated : translated (actions ++ [.processParallel fs order i]) =
      translated actions ++ [i] := filterMap_concat_of_some rfl
  have hdumped : dumped (actions ++ [.processParallel fs order i]) = dumped actions :=
    filterMap_concat_of_none rfl
  have hload := firstLoad_getTable_of_tablesFor htables (UInt64.ofInt (runNumber i))
  rw [← hcalls] at hload
  refine ⟨?_, ?_, fun j hj => ?_, fun j hj => ⟨rfl, ?_⟩, fun hnone => ?_, fun hsome => ?_⟩
  · rw [hcalls]
    exact hfollows
  · obtain ⟨calls, hkept, hcalls⟩ := h.kept
    exact ⟨calls, ⟨hkept.built.frozen, hkept.paths⟩,
      fun call hcall => List.mem_append_left _ (hcalls call hcall)⟩
  · rw [htranslated, List.mem_append, List.mem_singleton, not_or] at hj
    dsimp only
    rw [Function.update_of_ne hj.2]
    exact h.untouched j hj.1
  · by_cases hij : j = i
    · subst hij
      refine ⟨runTables, hload, table, order, htable, ?_⟩
      dsimp only
      rw [Function.update_self, ← h.untouched j hnew]
      exact hevent
    · have hj : j ∈ translated actions := by
        rw [htranslated, List.mem_append, List.mem_singleton] at hj
        exact hj.resolve_right hij
      obtain ⟨-, runTables', hfirst, htranslated⟩ := h.translation j hj
      refine ⟨runTables', hcalls ▸ firstLoad_getTable_of_some hfirst fs _, ?_⟩
      dsimp only
      rw [Function.update_of_ne hij]
      exact htranslated.freeze
  · exact h.unopened (hdumped ▸ hnone)
  · rw [hdumped] at hsome ⊢
    -- An event that is in the files already has been translated before, and is not this one.
    have hcontents : (dumped actions).map (Function.update program.events i event) =
        (dumped actions).map program.events := by
      refine List.map_congr_left fun j hj => Function.update_of_ne ?_ _ _
      rintro rfl
      exact hnew (horder.of_concat.translated_of_dumped hj)
    rw [hcontents]
    exact h.opened hsome

theorem runsTo_of_run (hrun : run directory runNumber c events actions = .ok program)
    (horder : InOrder actions) : RunsTo runNumber c events actions program := by
  induction actions using List.reverseRecOn generalizing program with
  | nil =>
    obtain rfl := Except.ok.inj hrun
    exact runsTo_start c events
  | append_singleton actions action ih =>
    obtain ⟨before, hbefore, hstep⟩ := foldlM_append_ok.mp hrun
    have h := ih hbefore horder.of_concat
    rw [foldlM_singleton_ok] at hstep
    cases action with
    | addCatalog name path =>
      obtain rfl := Except.ok.inj hstep
      exact h.addCatalog name path
    | useRegistry operation =>
      obtain rfl := Except.ok.inj hstep
      exact h.useRegistry horder.of_concat operation
    | processParallel fs order i =>
      obtain ⟨⟨tables, registry, event⟩, hok, hstep⟩ := bind_eq_ok.mp hstep
      obtain rfl := Except.ok.inj hstep
      exact h.processParallel horder hok
    | processSequential i =>
      obtain ⟨⟨registry, dump⟩, hok, hstep⟩ := bind_eq_ok.mp hstep
      obtain rfl := Except.ok.inj hstep
      exact h.processSequential horder hok

/-- The file of a route: its header, and then for each event the rows of what the route makes of
the hits that the table for the run of the event assigns to its detector. -/
structure FileOf (runTables : List RunRangeTable) (runNumber : ι → Int) (events : ι → JEvent T)
    (is : List ι) (call : Registration T S) (writer : Output T S) (file : S)
    (convert : Translator call.raw call.digi) (writeRow : RowWriter S call.digi)
    (values : ι → List (Hit call.digi)) : Prop where
  output : call.IsOutput writer
  translator_eq : call.translator = some convert
  writeRow_eq : call.writeRow = some writeRow
  converted : ∀ i ∈ is, ∃ table, answer runTables (UInt64.ofInt (runNumber i)) = .ok table ∧
    List.Forall₂ (fun x hit => convert x.1 x.2 = .ok hit)
      (selected table.table call.detector ((events i).hits call.raw "")) (values i)
  file_eq : file = is.foldl (fun stream i =>
    (values i).foldl (fun stream hit => writeRow stream (events i).eventNumber hit) stream)
      (TextStream.write (TextStream.write TextStream.opened call.csvHeader) "\n")

omit [DecidableEq ι] in
theorem exists_fileOf {calls : List (Registration T S)} {registry : DetectorTranslatorsMap T S}
    (hbuilt : Holds calls registry) (hunchained : registry.Unchained)
    {runTables : List RunRangeTable} {is : List ι} {contents : ι → JEvent T}
    (hfresh : ∀ i raw digi tag, (events i).outputs raw digi tag = [])
    (htranslated : ∀ i ∈ is,
      TranslatedBy runTables registry (runNumber i) (events i) (contents i))
    {call : Registration T S} (hcall : call ∈ calls) {writer : Output T S}
    (houtput : call.IsOutput writer) : ∃ convert writeRow values,
      FileOf runTables runNumber events is call writer (writer.file (is.map contents)) convert
        writeRow values := by
  obtain ⟨route, convert, hconvert, -, -⟩ := hbuilt.registered call hcall
  obtain ⟨writeRow, filename, hwriteRow, hfilename, hwriter⟩ := houtput
  have hevent (i : ι) (hi : i ∈ is) : ∃ values, (∃ table,
      answer runTables (UInt64.ofInt (runNumber i)) = .ok table ∧
        List.Forall₂ (fun x hit => convert x.1 x.2 = .ok hit)
          (selected table.table call.detector ((events i).hits call.raw "")) values) ∧
      ∀ stream, writer.writeEvent stream (contents i) =
        values.foldl (fun stream hit => writeRow stream (events i).eventNumber hit) stream := by
    obtain ⟨table, order, htable, hcontents⟩ := htranslated i hi
    obtain ⟨hconverts, hcontents⟩ := (DetectorTranslatorsMap.translateEvent_iff hunchained order).mp hcontents
    obtain ⟨convert', writeRow', values, htrans⟩ := hbuilt.translated order hconverts hcall
      ⟨writeRow, filename, hwriteRow, hfilename, hwriter⟩
    obtain rfl := Option.some.inj (hconvert.symm.trans htrans.translator_eq)
    obtain rfl := Option.some.inj (hwriteRow.symm.trans htrans.writeRow_eq)
    refine ⟨values, ⟨table, htable, htrans.converted⟩, fun stream => ?_⟩
    rw [hcontents]
    exact htrans.printed (hfresh i _ _ _) stream
  choose! values hvalues using hevent
  refine ⟨convert, writeRow, values, ⟨writeRow, filename, hwriteRow, hfilename, hwriter⟩, hconvert,
    hwriteRow, fun i hi => (hvalues i hi).1, ?_⟩
  rw [file_eq_foldl writer fun i hi => (hvalues i hi).2, hwriter]
  rfl

structure DumpsFiles (c : Configuration) (runNumber : ι → Int) (events : ι → JEvent T)
    (actions : List (Action ι T S)) (program : Program ι T S) (runTables : List RunRangeTable)
    (calls : List (Registration T S)) : Prop where
  load : firstLoad c (tableCalls runNumber actions) = some runTables
  built : Built calls program.registry
  registered : ∀ call ∈ calls, .useRegistry (.addTranslator call) ∈ actions
  paths : (program.dump.writers.map Output.path).Nodup
  length : program.dump.writers.length = program.dump.outputs.length
  files : List.Forall₂ (fun call output => ∃ convert writeRow values,
    FileOf runTables runNumber events (dumped actions) call output.1 output.2 convert writeRow
      values) calls (program.dump.writers.zip program.dump.outputs)

omit [DecidableEq ι] in
theorem RunsTo.exists_files (h : RunsTo runNumber c events actions program)
    (horder : InOrder actions)
    (hfresh : ∀ i raw digi tag, (events i).outputs raw digi tag = [])
    (hdigi : ∀ r r', .useRegistry (.addTranslator r) ∈ actions →
      .useRegistry (.addTranslator r') ∈ actions → r.digi = r'.raw → r.digi = r.raw)
    (hsome : dumped actions ≠ []) :
    ∃ runTables calls, DumpsFiles c runNumber events actions program runTables calls := by
  obtain ⟨calls, hkept, hcalls⟩ := h.kept
  have hholds := hkept.built.holds
  have hunchained : program.registry.Unchained := hholds.unchained fun call hcall other hother =>
    hdigi call other (hcalls call hcall) (hcalls other hother)
  obtain ⟨j, hj⟩ := List.exists_mem_of_ne_nil _ hsome
  obtain ⟨-, runTables, hload, -⟩ := h.translation j (horder.translated_of_dumped hj)
  have htranslated : ∀ i ∈ dumped actions, TranslatedBy runTables program.registry (runNumber i)
      (events i) (program.events i) := by
    intro i hi
    obtain ⟨-, runTables', hload', htranslated⟩ := h.translation i (horder.translated_of_dumped hi)
    rw [hload] at hload'
    rwa [Option.some.inj hload']
  have hdump := h.opened hsome
  refine ⟨runTables, calls, hload, hkept.built, hcalls, ?_, ?_, ?_⟩
  · have hnodup := hkept.paths.nodup
    rw [hkept.paths.paths, List.nodup_reverse] at hnodup
    rwa [hdump]
  · rw [hdump, List.length_map]
  · have hzip : program.dump.writers.zip program.dump.outputs =
        program.registry.dump.outputs.map fun writer =>
          (writer, writer.file ((dumped actions).map program.events)) := by
      rw [hdump, ← List.zip_map', List.map_id']
    rw [hzip, List.forall₂_map_right_iff]
    exact forall₂_of_mem hholds.outputs fun call hcall writer houtput =>
      exists_fileOf hholds hunchained hfresh htranslated hcall houtput

theorem exists_ok_of_isSome {ε α : Type*} {x : Except ε α} (h : x.toOption.isSome = true) :
    ∃ a, x = .ok a := by
  cases x with
  | error message => cases h
  | ok a => exact ⟨a, rfl⟩

end Runs

section Test

instance : TextStream String := ⟨"", String.append⟩

def testFiles (row : String) : FileSystem where
  read path :=
    if path = "/maps/manifest.map" then some ⟨"A a/manifest.map\n", true⟩
    else if path = "/maps/a/manifest.map" then some ⟨"0 max a.map\n", true⟩
    else if path = "/maps/a/a.map" then some ⟨"detector A\nfields layer\n" ++ row ++ "\n", true⟩
    else none
  weaklyCanonical path := .ok path

def testDirectory : DumpDirectory := ⟨⟨"dump"⟩, fun _ => none, fun _ => none⟩

def testEvents (second : Bool) : JEvent TestHit := if second then chainedEvent else testEvent

/-- Two events that are written in another order than they are translated in, and a route and a
catalog that come too late. -/
def testActions : List (Action Bool TestHit String) :=
  [.addCatalog "hms" "/maps", .useRegistry (.addTranslator (testRoute .rawHit .digiHit "A" 0)),
    .processParallel (testFiles "1 2 3 7") .stored false, .addCatalog "late" "/late",
    .processParallel (testFiles "") .reversed true, .processSequential true,
    .useRegistry (.addTranslator (testRoute .rawHit .digiHit "B" 0)), .processSequential false]

def testProgram : Except String (Program Bool TestHit String) :=
  run testDirectory (fun _ => 5) ⟨"", [], []⟩ testEvents testActions

example : testProgram.toOption.map (fun program => program.dump.outputs) =
    some ["event,value\n42,7\n42,7\n42,70\n"] := by
  decide +kernel

end Test

end DetectorTranslators

end JanaExtensions
