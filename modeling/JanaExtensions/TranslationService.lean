import JanaExtensions.DetectorMappingManifest
import JanaExtensions.TranslationTable
import Mathlib.Data.List.Lex

/-! The service that selects a translation table by run number. -/

namespace JanaExtensions

open IntervalTable

namespace TranslationService

structure DetectorMappingCatalogProvider where
  name : String
  directory : String
  deriving DecidableEq, Repr

structure DetectorManifest where
  detector : String
  directory : Path
  ranges : List DetectorMappingRunRange
  deriving DecidableEq, Repr

/-- The mapping file that a detector uses, the key under which tables are shared. -/
structure MappingFile where
  detector : String
  path : String
  deriving DecidableEq, Repr

instance : LinearOrder MappingFile :=
  LinearOrder.lift' (fun f => toLex (f.detector, f.path)) (by
    rintro ⟨detector, path⟩ ⟨detector', path'⟩ h
    simpa using h)

/-- A table that several run ranges may share. Such tables are told apart by address. -/
structure SharedTable where
  address : Nat
  table : TranslationTable
  deriving DecidableEq

structure RunRangeTable where
  runMin : UInt64
  runMax : UInt64
  table : SharedTable
  deriving DecidableEq

structure Configuration where
  mappingDirectory : String
  defaultCatalogs : List DetectorMappingCatalogProvider
  registeredCatalogs : List DetectorMappingCatalogProvider

def Configuration.providers (c : Configuration) : List DetectorMappingCatalogProvider :=
  if c.mappingDirectory ≠ "" then [⟨"TRANSLATION:DIRECTORY", c.mappingDirectory⟩]
  else if c.defaultCatalogs ≠ [] then c.defaultCatalogs
  else c.registeredCatalogs

def findRange (ranges : List DetectorMappingRunRange) (runNumber : UInt64) :
    Option DetectorMappingRunRange :=
  search DetectorMappingRunRange.runMin DetectorMappingRunRange.runMax ranges runNumber

structure Manifests where
  detectorManifests : List DetectorManifest := []
  boundaries : OrderedMap UInt64 Unit := ∅
  detectorProviders : OrderedMap String String := ∅

def insertBoundaries (boundaries : OrderedMap UInt64 Unit) (range : DetectorMappingRunRange) :
    OrderedMap UInt64 Unit :=
  let boundaries := boundaries.insert range.runMin ()
  if range.runMax ≠ maxValue then boundaries.insert (range.runMax + 1) () else boundaries

def loadEntry (fs : FileSystem) (provider : DetectorMappingCatalogProvider) (s : Manifests)
    (entry : DetectorMappingCatalogEntry) : Except String Manifests :=
  match s.detectorProviders.find entry.detector with
  | some existing =>
    .error ("Detector '" ++ entry.detector ++ "' is provided by both mapping catalogs '" ++
      existing ++ "' and '" ++ provider.name ++ "'")
  | none => do
    let manifestPath ←
      resolveOwnedPath fs ⟨provider.directory⟩ ⟨entry.manifestFile⟩ "Detector manifest"
    let ranges ← loadDetectorMappingManifest fs manifestPath.string
    .ok
      { detectorManifests :=
          s.detectorManifests ++ [⟨entry.detector, manifestPath.parentPath, ranges⟩]
        boundaries := ranges.foldl insertBoundaries s.boundaries
        detectorProviders := s.detectorProviders.insert entry.detector provider.name }

def catalogPath (provider : DetectorMappingCatalogProvider) : Path :=
  ⟨provider.directory⟩ / ⟨"manifest.map"⟩

def loadCatalog (fs : FileSystem) (s : Manifests) (provider : DetectorMappingCatalogProvider) :
    Except String Manifests := do
  let catalog ← loadDetectorMappingCatalog fs (catalogPath provider).string
  catalog.foldlM (loadEntry fs provider) s

def addMappingFile (fs : FileSystem) (runMin : UInt64) (mappingFiles : List MappingFile)
    (manifest : DetectorManifest) : Except String (List MappingFile) :=
  match findRange manifest.ranges runMin with
  | some range => do
    let path ← resolveOwnedPath fs manifest.directory ⟨range.mappingFile⟩ "Mapping file"
    .ok (mappingFiles ++ [⟨manifest.detector, path.string⟩])
  | none => .ok mappingFiles

def selectMappingFiles (fs : FileSystem) (manifests : List DetectorManifest) (runMin : UInt64) :
    Except String (List MappingFile) :=
  manifests.foldlM (addMappingFile fs runMin) []

def loadMappingFiles (fs : FileSystem) (mappingFiles : List MappingFile) :
    Except String TranslationTable :=
  mappingFiles.foldlM (fun table file =>
    TranslationTable.loadMappingFile fs table file.path file.detector) {}

structure Building where
  tables : OrderedMap (List MappingFile) SharedTable := ∅
  allocated : Nat := 0
  runTables : List RunRangeTable := []

def tableOf (fs : FileSystem) (mappingFiles : List MappingFile) (s : Building) :
    Except String (SharedTable × Building) :=
  match s.tables.find mappingFiles with
  | some table => .ok (table, s)
  | none => do
    let loaded ← loadMappingFiles fs mappingFiles
    let table : SharedTable := ⟨s.allocated, loaded⟩
    .ok (table, { s with
      tables := s.tables.insert mappingFiles table
      allocated := s.allocated + 1 })

/-- Adds a run range behind the others, or extends the last one if it goes on there with
the same table. -/
def appendRunRange (runTables : List RunRangeTable) (runMin runMax : UInt64)
    (table : SharedTable) : List RunRangeTable :=
  match runTables.getLast? with
  | some back =>
    if back.runMax ≠ maxValue ∧ back.runMax + 1 = runMin ∧ back.table.address = table.address then
      runTables.dropLast ++ [{ back with runMax }]
    else runTables ++ [⟨runMin, runMax, table⟩]
  | none => runTables ++ [⟨runMin, runMax, table⟩]

def addRunRange (fs : FileSystem) (manifests : List DetectorManifest) (s : Building)
    (segment : UInt64 × UInt64) : Except String Building := do
  let mappingFiles ← selectMappingFiles fs manifests segment.1
  if mappingFiles = [] then .ok s
  else do
    let r ← tableOf fs mappingFiles s
    .ok { r.2 with runTables := appendRunRange r.2.runTables segment.1 segment.2 r.1 }

/-- The run tables of a configuration. Without catalogs an empty table is for all runs. -/
def loadTables (fs : FileSystem) (c : Configuration) : Except String (List RunRangeTable) :=
  if c.providers = [] then .ok [⟨0, maxValue, ⟨0, {}⟩⟩]
  else do
    let manifests ← c.providers.foldlM (loadCatalog fs) {}
    let s ← (segments manifests.boundaries.keys).foldlM
      (addRunRange fs manifests.detectorManifests) {}
    if s.runTables = [] then
      .error "Registered detector mapping catalogs produce no run tables"
    else .ok s.runTables

structure Service where
  configuration : Configuration
  runTables : List RunRangeTable := []
  loaded : Bool := false
  cachedRunTable : Option RunRangeTable := none

def Service.load (fs : FileSystem) (service : Service) : Except String Service :=
  if service.loaded then .ok service
  else do
    let runTables ← loadTables fs service.configuration
    .ok { service with
      runTables
      loaded := true
      cachedRunTable :=
        if service.configuration.providers = [] then service.cachedRunTable else none }

def noTable (runNumber : UInt64) : String :=
  "No detector translation table for run " ++ toString runNumber.toNat

def findRunTable (runTables : List RunRangeTable) (runNumber : UInt64) : Option RunRangeTable :=
  search RunRangeTable.runMin RunRangeTable.runMax runTables runNumber

def Service.cachedFor (service : Service) (runNumber : UInt64) : Option RunRangeTable :=
  service.cachedRunTable.filter fun cached =>
    decide (cached.runMin ≤ runNumber ∧ runNumber ≤ cached.runMax)

def Service.getTable (fs : FileSystem) (service : Service) (runNumber : UInt64) :
    Except String SharedTable × Service :=
  match service.load fs with
  | .error message => (.error message, service)
  | .ok service =>
    match service.cachedFor runNumber with
    | some cached => (.ok cached.table, service)
    | none =>
      match findRunTable service.runTables runNumber with
      | none => (.error (noTable runNumber), service)
      | some range => (.ok range.table, { service with cachedRunTable := some range })

end TranslationService

end JanaExtensions
