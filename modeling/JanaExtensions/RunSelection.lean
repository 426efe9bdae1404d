import JanaExtensions.TranslationService

/-! The table that the service selects for a run number holds what the mapping files
active in that run give. -/

namespace JanaExtensions.TranslationService

open Failing IntervalTable

/-- A detector of the manifests with one of its ranges that contains the run number. -/
structure Active (manifests : List DetectorManifest) (runNumber : UInt64)
    (manifest : DetectorManifest) (range : DetectorMappingRunRange) : Prop where
  manifest_mem : manifest ∈ manifests
  range_mem : range ∈ manifest.ranges
  le_run : range.runMin ≤ runNumber
  run_le : runNumber ≤ range.runMax

def AllIncreasing (manifests : List DetectorManifest) : Prop :=
  ∀ manifest ∈ manifests,
    Increasing DetectorMappingRunRange.runMin DetectorMappingRunRange.runMax manifest.ranges

section Files

variable {fs : FileSystem} {manifests : List DetectorManifest} {runNumber : UInt64}

theorem addMappingFile_eq_ok {manifest : DetectorManifest} {files files' : List MappingFile}
    (h : addMappingFile fs runNumber files manifest = .ok files') :
    findRange manifest.ranges runNumber = none ∧ files' = files ∨
      ∃ range path, findRange manifest.ranges runNumber = some range ∧
        resolveOwnedPath fs manifest.directory ⟨range.mappingFile⟩ "Mapping file" = .ok path ∧
        files' = files ++ [⟨manifest.detector, path.string⟩] := by
  rw [addMappingFile] at h
  split at h
  · rename_i range hrange
    obtain ⟨path, hpath, h⟩ := bind_eq_ok.mp h
    exact .inr ⟨range, path, hrange, hpath, (Except.ok.inj h).symm⟩
  · rename_i hnone
    exact .inl ⟨hnone, (Except.ok.inj h).symm⟩

theorem findRange_eq_some_iff (hinc : AllIncreasing manifests) {manifest : DetectorManifest}
    (hmem : manifest ∈ manifests) {range : DetectorMappingRunRange} :
    findRange manifest.ranges runNumber = some range ↔
      range ∈ manifest.ranges ∧ range.runMin ≤ runNumber ∧ runNumber ≤ range.runMax :=
  search_eq_some_iff (hinc manifest hmem)

structure FilesOf (fs : FileSystem) (manifests : List DetectorManifest) (runNumber : UInt64)
    (files : List MappingFile) : Prop where
  listed : ∀ manifest range, Active manifests runNumber manifest range → ∃ path,
    resolveOwnedPath fs manifest.directory ⟨range.mappingFile⟩ "Mapping file" = .ok path ∧
      ⟨manifest.detector, path.string⟩ ∈ files
  active : ∀ file ∈ files, ∃ manifest range, Active manifests runNumber manifest range ∧
    ∃ path, resolveOwnedPath fs manifest.directory ⟨range.mappingFile⟩ "Mapping file" = .ok path ∧
      file = ⟨manifest.detector, path.string⟩

theorem Active.append {before after : List DetectorManifest} {manifest : DetectorManifest}
    {range : DetectorMappingRunRange} (h : Active before runNumber manifest range) :
    Active (before ++ after) runNumber manifest range :=
  { h with manifest_mem := List.mem_append_left after h.manifest_mem }

theorem FilesOf.without_range {before : List DetectorManifest} {manifest : DetectorManifest}
    {files : List MappingFile} (h : FilesOf fs before runNumber files)
    (hnone : ∀ range, ¬ (range ∈ manifest.ranges ∧ range.runMin ≤ runNumber ∧
      runNumber ≤ range.runMax)) : FilesOf fs (before ++ [manifest]) runNumber files where
  listed := by
    intro m range hactive
    rcases List.mem_append.mp hactive.manifest_mem with hm | hm
    · exact h.listed m range { hactive with manifest_mem := hm }
    · obtain rfl := List.mem_singleton.mp hm
      exact absurd ⟨hactive.range_mem, hactive.le_run, hactive.run_le⟩ (hnone range)
  active := by
    intro file hfile
    obtain ⟨m, range, hactive, hpath⟩ := h.active file hfile
    exact ⟨m, range, hactive.append, hpath⟩

theorem FilesOf.with_range {before : List DetectorManifest} {manifest : DetectorManifest}
    {files : List MappingFile} (h : FilesOf fs before runNumber files)
    {range : DetectorMappingRunRange} (hrange : ∀ r, r = range ↔
      r ∈ manifest.ranges ∧ r.runMin ≤ runNumber ∧ runNumber ≤ r.runMax) {path : Path}
    (hpath : resolveOwnedPath fs manifest.directory ⟨range.mappingFile⟩ "Mapping file" =
      .ok path) :
    FilesOf fs (before ++ [manifest]) runNumber (files ++ [⟨manifest.detector, path.string⟩]) where
  listed := by
    intro m r hactive
    rcases List.mem_append.mp hactive.manifest_mem with hm | hm
    · obtain ⟨p, hp, hfile⟩ := h.listed m r { hactive with manifest_mem := hm }
      exact ⟨p, hp, List.mem_append_left _ hfile⟩
    · obtain rfl := List.mem_singleton.mp hm
      obtain rfl := (hrange r).mpr ⟨hactive.range_mem, hactive.le_run, hactive.run_le⟩
      exact ⟨path, hpath, by simp⟩
  active := by
    intro file hfile
    rcases List.mem_append.mp hfile with hfile | hfile
    · obtain ⟨m, r, hactive, hp⟩ := h.active file hfile
      exact ⟨m, r, hactive.append, hp⟩
    · obtain ⟨hmem, hle, hge⟩ := (hrange range).mp rfl
      have hactive : Active (before ++ [manifest]) runNumber manifest range :=
        ⟨by simp, hmem, hle, hge⟩
      exact ⟨manifest, range, hactive, path, hpath, List.mem_singleton.mp hfile⟩

theorem selectMappingFiles_eq_ok (hinc : AllIncreasing manifests) {files : List MappingFile}
    (h : selectMappingFiles fs manifests runNumber = .ok files) :
    FilesOf fs manifests runNumber files := by
  refine foldlM_invariant (I := fun before files => FilesOf fs before runNumber files) ?_ ?_ h
  · exact ⟨fun _ _ hactive => absurd hactive.manifest_mem (by simp), by simp⟩
  · intro pre manifest post files files' hsplit hpre hadd
    have hmem : manifest ∈ manifests := by simp [hsplit]
    rcases addMappingFile_eq_ok hadd with ⟨hnone, rfl⟩ | ⟨range, path, hrange, hpath, rfl⟩
    · apply hpre.without_range
      intro range hcontains
      have hsome := (findRange_eq_some_iff hinc hmem).mpr hcontains
      rw [hnone] at hsome
      cases hsome
    · refine hpre.with_range (fun r => ?_) hpath
      rw [← findRange_eq_some_iff hinc hmem, hrange, Option.some.injEq, eq_comm]

theorem selectMappingFiles_ne_nil_iff (hinc : AllIncreasing manifests) {files : List MappingFile}
    (h : selectMappingFiles fs manifests runNumber = .ok files) :
    files ≠ [] ↔ ∃ manifest range, Active manifests runNumber manifest range := by
  have hfiles := selectMappingFiles_eq_ok hinc h
  constructor
  · intro hne
    obtain ⟨file, hfile⟩ := List.exists_mem_of_ne_nil files hne
    obtain ⟨manifest, range, hactive, -⟩ := hfiles.active file hfile
    exact ⟨manifest, range, hactive⟩
  · intro hh
    obtain ⟨manifest, range, hactive⟩ := hh
    obtain ⟨path, -, hfile⟩ := hfiles.listed manifest range hactive
    exact List.ne_nil_of_mem hfile

theorem lookup_loadMappingFiles {files : List MappingFile} {table : TranslationTable}
    (h : loadMappingFiles fs files = .ok table) (daq : DAQAddress) (address : DetectorAddress) :
    table.lookup daq = some address ↔
      ∃ file ∈ files, TranslationTable.MappingGives fs file.path daq address := by
  refine foldlM_invariant (I := fun files (table : TranslationTable) =>
    table.lookup daq = some address ↔
      ∃ file ∈ files, TranslationTable.MappingGives fs file.path daq address) ?_ ?_ h
  · simp [TranslationTable.lookup]
  · intro pre file post table table' _ htable hload
    rw [TranslationTable.lookup_loadMappingFile hload, htable, exists_mem_concat]

end Files

section Catalogs

variable {fs : FileSystem}

def ReadFor (fs : FileSystem) (provider : DetectorMappingCatalogProvider)
    (entry : DetectorMappingCatalogEntry) (manifest : DetectorManifest) : Prop :=
  manifest.detector = entry.detector ∧ ∃ manifestPath,
    resolveOwnedPath fs ⟨provider.directory⟩ ⟨entry.manifestFile⟩ "Detector manifest" =
      .ok manifestPath ∧
    manifest.directory = manifestPath.parentPath ∧
    loadDetectorMappingManifest fs manifestPath.string = .ok manifest.ranges

def IsBoundary (range : DetectorMappingRunRange) (boundary : UInt64) : Prop :=
  boundary = range.runMin ∨ range.runMax ≠ maxValue ∧ boundary = range.runMax + 1

theorem mem_keys_insertBoundaries (boundaries : OrderedMap UInt64 Unit)
    (range : DetectorMappingRunRange) {boundary : UInt64} :
    boundary ∈ (insertBoundaries boundaries range).keys ↔
      boundary ∈ boundaries.keys ∨ IsBoundary range boundary := by
  rw [insertBoundaries, IsBoundary]
  by_cases hmax : range.runMax = maxValue
  · simp [hmax, OrderedMap.mem_keys_insert, or_comm]
  · simp only [ne_eq, hmax, not_false_eq_true, if_true, OrderedMap.mem_keys_insert, true_and]
    tauto

theorem mem_keys_foldl_insertBoundaries (ranges : List DetectorMappingRunRange)
    (boundaries : OrderedMap UInt64 Unit) {boundary : UInt64} :
    boundary ∈ (ranges.foldl insertBoundaries boundaries).keys ↔
      boundary ∈ boundaries.keys ∨ ∃ range ∈ ranges, IsBoundary range boundary := by
  induction ranges generalizing boundaries with
  | nil => simp
  | cons range ranges ih =>
    rw [List.foldl_cons, ih, mem_keys_insertBoundaries]
    simp [or_assoc]

def Manifests.Cut (s : Manifests) : Prop :=
  ∀ manifest ∈ s.detectorManifests, ∀ range ∈ manifest.ranges, ∀ boundary,
    IsBoundary range boundary → boundary ∈ s.boundaries.keys

theorem readFor_unique {provider : DetectorMappingCatalogProvider}
    {entry : DetectorMappingCatalogEntry} {m m' : DetectorManifest}
    (h : ReadFor fs provider entry m) (h' : ReadFor fs provider entry m') : m' = m := by
  obtain ⟨hdetector, path, hpath, hdirectory, hranges⟩ := h
  obtain ⟨hdetector', path', hpath', hdirectory', hranges'⟩ := h'
  obtain rfl := Except.ok.inj (hpath.symm.trans hpath')
  have hsame := Except.ok.inj (hranges.symm.trans hranges')
  cases m
  cases m'
  simp_all

theorem loadEntry_eq_ok {provider : DetectorMappingCatalogProvider} {s s' : Manifests}
    {entry : DetectorMappingCatalogEntry} (h : loadEntry fs provider s entry = .ok s') :
    ∃ manifest, ReadFor fs provider entry manifest ∧
      s'.detectorManifests = s.detectorManifests ++ [manifest] ∧
      s'.boundaries = manifest.ranges.foldl insertBoundaries s.boundaries := by
  rw [loadEntry] at h
  split at h
  · cases h
  · obtain ⟨manifestPath, hpath, h⟩ := bind_eq_ok.mp h
    obtain ⟨ranges, hranges, h⟩ := bind_eq_ok.mp h
    obtain rfl := Except.ok.inj h
    exact ⟨⟨entry.detector, manifestPath.parentPath, ranges⟩,
      ⟨rfl, manifestPath, hpath, rfl, hranges⟩, rfl, rfl⟩

theorem loadEntry_cut {provider : DetectorMappingCatalogProvider} {s s' : Manifests}
    {entry : DetectorMappingCatalogEntry} (h : loadEntry fs provider s entry = .ok s')
    (hcut : s.Cut) : s'.Cut := by
  obtain ⟨manifest, -, hmanifests, hboundaries⟩ := loadEntry_eq_ok h
  intro m hm range hrange boundary hboundary
  rw [hboundaries, mem_keys_foldl_insertBoundaries]
  rcases List.mem_append.mp (hmanifests ▸ hm) with hm | hm
  · exact .inl (hcut m hm range hrange boundary hboundary)
  · rw [List.mem_singleton.mp hm] at hrange
    exact .inr ⟨range, hrange, hboundary⟩

structure EntriesRead (fs : FileSystem) (provider : DetectorMappingCatalogProvider)
    (entries : List DetectorMappingCatalogEntry) (s s' : Manifests) : Prop where
  mem_iff : ∀ manifest, manifest ∈ s'.detectorManifests ↔ manifest ∈ s.detectorManifests ∨
    ∃ entry ∈ entries, ReadFor fs provider entry manifest
  read : ∀ entry ∈ entries, ∃ manifest, ReadFor fs provider entry manifest
  cut : s'.Cut

theorem loadEntries_eq_ok {provider : DetectorMappingCatalogProvider} {s s' : Manifests}
    {entries : List DetectorMappingCatalogEntry}
    (h : entries.foldlM (loadEntry fs provider) s = .ok s') (hcut : s.Cut) :
    EntriesRead fs provider entries s s' := by
  refine foldlM_invariant (I := fun entries s' => EntriesRead fs provider entries s s')
    ⟨by simp, by simp, hcut⟩ ?_ h
  rintro pre entry post t t' - ht hload
  obtain ⟨m, hread, hmanifests, -⟩ := loadEntry_eq_ok hload
  refine ⟨fun manifest => ?_, forall_mem_concat.mpr ⟨ht.read, m, hread⟩,
    loadEntry_cut hload ht.cut⟩
  have hunique : ReadFor fs provider entry manifest ↔ manifest = m :=
    ⟨fun h => readFor_unique hread h, fun h => h ▸ hread⟩
  rw [hmanifests, List.mem_append, ht.mem_iff, List.mem_singleton, or_assoc, exists_mem_concat,
    hunique]

structure CatalogsRead (fs : FileSystem) (providers : List DetectorMappingCatalogProvider)
    (s : Manifests) : Prop where
  mem_iff : ∀ manifest, manifest ∈ s.detectorManifests ↔ ∃ provider ∈ providers, ∃ entry,
    CatalogLists fs (catalogPath provider).string entry ∧ ReadFor fs provider entry manifest
  read : ∀ provider ∈ providers, ∀ entry, CatalogLists fs (catalogPath provider).string entry →
    ∃ manifest, ReadFor fs provider entry manifest
  cut : s.Cut

theorem loadCatalogs_eq_ok {providers : List DetectorMappingCatalogProvider} {s : Manifests}
    (h : providers.foldlM (loadCatalog fs) {} = .ok s) : CatalogsRead fs providers s := by
  refine foldlM_invariant (I := CatalogsRead fs) ⟨by simp, by simp, ?_⟩ ?_ h
  · intro manifest hmanifest
    simp at hmanifest
  · rintro pre provider post t t' - ht hload
    obtain ⟨catalog, hcatalog, hload⟩ := bind_eq_ok.mp hload
    have hentries := loadEntries_eq_ok hload ht.cut
    refine ⟨fun manifest => ?_, forall_mem_concat.mpr ⟨ht.read, fun entry hentry => ?_⟩,
      hentries.cut⟩
    · rw [hentries.mem_iff, ht.mem_iff, exists_mem_concat]
      simp only [mem_loadDetectorMappingCatalog hcatalog]
    · exact hentries.read entry ((mem_loadDetectorMappingCatalog hcatalog entry).mpr hentry)

theorem allIncreasing_of_loadCatalogs {providers : List DetectorMappingCatalogProvider}
    {s : Manifests} (h : providers.foldlM (loadCatalog fs) {} = .ok s) :
    AllIncreasing s.detectorManifests := by
  intro manifest hmanifest
  obtain ⟨provider, -, entry, -, -, manifestPath, -, -, hranges⟩ :=
    ((loadCatalogs_eq_ok h).mem_iff manifest).mp hmanifest
  exact (loadDetectorMappingManifest_eq_ok hranges).2

theorem active_segment_iff {s : Manifests} (hcut : s.Cut) {segment : UInt64 × UInt64}
    (hsegment : segment ∈ segments s.boundaries.keys) {runNumber : UInt64}
    (hrun : segment.1 ≤ runNumber ∧ runNumber ≤ segment.2) {manifest : DetectorManifest}
    {range : DetectorMappingRunRange} :
    Active s.detectorManifests runNumber manifest range ↔
      Active s.detectorManifests segment.1 manifest range := by
  have hiff (hm : manifest ∈ s.detectorManifests) (hr : range ∈ manifest.ranges) :=
    mem_interval_iff s.boundaries.keys_sorted hsegment hrun
      (hcut manifest hm range hr range.runMin (.inl rfl))
      (fun hmax => hcut manifest hm range hr _ (.inr ⟨hmax, rfl⟩))
  constructor
  · intro hh
    obtain ⟨hm, hr, hle, hge⟩ := hh
    have hcontains := (hiff hm hr).mp ⟨hle, hge⟩
    exact ⟨hm, hr, hcontains.1, hcontains.2⟩
  · intro hh
    obtain ⟨hm, hr, hle, hge⟩ := hh
    have hcontains := (hiff hm hr).mpr ⟨hle, hge⟩
    exact ⟨hm, hr, hcontains.1, hcontains.2⟩

end Catalogs

section RunRanges

def Covers (runTables : List RunRangeTable) (runNumber : UInt64) (table : SharedTable) : Prop :=
  ∃ t ∈ runTables, t.runMin ≤ runNumber ∧ runNumber ≤ t.runMax ∧ t.table = table

abbrev Ordered (runTables : List RunRangeTable) : Prop :=
  Increasing RunRangeTable.runMin RunRangeTable.runMax runTables

theorem covers_append {xs ys : List RunRangeTable} {runNumber : UInt64} {table : SharedTable} :
    Covers (xs ++ ys) runNumber table ↔ Covers xs runNumber table ∨ Covers ys runNumber table := by
  simp [Covers, or_and_right, exists_or]

theorem covers_singleton {t : RunRangeTable} {runNumber : UInt64} {table : SharedTable} :
    Covers [t] runNumber table ↔ t.runMin ≤ runNumber ∧ runNumber ≤ t.runMax ∧ t.table = table := by
  simp [Covers]

variable {runTables : List RunRangeTable} {runMin runMax : UInt64} {table : SharedTable}

theorem pushed_run_range (hle : runMin ≤ runMax) (hordered : Ordered runTables)
    (hbefore : ∀ t ∈ runTables, t.runMax < runMin) :
    Ordered (runTables ++ [⟨runMin, runMax, table⟩]) ∧ ∀ runNumber table',
      Covers (runTables ++ [⟨runMin, runMax, table⟩]) runNumber table' ↔
        Covers runTables runNumber table' ∨
          runMin ≤ runNumber ∧ runNumber ≤ runMax ∧ table = table' := by
  refine ⟨hordered.append_singleton hle hbefore, fun runNumber table' => ?_⟩
  rw [covers_append, covers_singleton]

theorem extended_run_range {init : List RunRangeTable} {back : RunRangeTable}
    (hle : runMin ≤ runMax) (hordered : Ordered (init ++ [back])) (hmax : back.runMax ≠ maxValue)
    (hnext : back.runMax + 1 = runMin) :
    Ordered (init ++ [{ back with runMax }]) ∧ ∀ runNumber table',
      Covers (init ++ [{ back with runMax }]) runNumber table' ↔
        Covers (init ++ [back]) runNumber table' ∨
          runMin ≤ runNumber ∧ runNumber ≤ runMax ∧ back.table = table' := by
  have hstart (runNumber : UInt64) : runMin ≤ runNumber ↔ back.runMax < runNumber := by
    rw [← hnext, add_one_le_iff hmax]
  have hback : back.runMin ≤ back.runMax := hordered.nonempty back (by simp)
  have hend : back.runMax < runMax := (hstart runMax).mp hle
  obtain ⟨hinit, -, hdisjoint⟩ := List.pairwise_append.mp hordered.disjoint
  refine ⟨?_, fun runNumber table' => ?_⟩
  · have hfront : Ordered init := ⟨fun t ht => hordered.nonempty t (by simp [ht]), hinit⟩
    exact hfront.append_singleton (hback.trans hend.le) fun t ht => hdisjoint t ht back (by simp)
  · simp only [covers_append, covers_singleton, hstart, or_assoc]
    refine or_congr_right ?_
    constructor
    · intro hh
      obtain ⟨hlo, hhi, htable⟩ := hh
      rcases le_or_gt runNumber back.runMax with h | h
      · exact .inl ⟨hlo, h, htable⟩
      · exact .inr ⟨h, hhi, htable⟩
    · intro hh
      rcases hh with ⟨hlo, hhi, htable⟩ | ⟨hlo, hhi, htable⟩
      · exact ⟨hlo, hhi.trans hend.le, htable⟩
      · exact ⟨hback.trans hlo.le, hhi, htable⟩

/-- Adding a run range behind the others keeps them and gives its runs the table. -/
theorem appendRunRange_spec (hle : runMin ≤ runMax) (hordered : Ordered runTables)
    (hbefore : ∀ t ∈ runTables, t.runMax < runMin)
    (hsame : ∀ t ∈ runTables, t.table.address = table.address → t.table = table) :
    Ordered (appendRunRange runTables runMin runMax table) ∧ ∀ runNumber table',
      Covers (appendRunRange runTables runMin runMax table) runNumber table' ↔
        Covers runTables runNumber table' ∨
          runMin ≤ runNumber ∧ runNumber ≤ runMax ∧ table = table' := by
  rw [appendRunRange]
  split
  · rename_i back hback
    obtain ⟨init, rfl⟩ := List.getLast?_eq_some_iff.mp hback
    split
    · rename_i hextend
      obtain ⟨hmax, hnext, haddress⟩ := hextend
      have htable : back.table = table := hsame back (by simp) haddress
      rw [List.dropLast_concat, ← htable]
      exact extended_run_range hle hordered hmax hnext
    · exact pushed_run_range hle hordered hbefore
  · exact pushed_run_range hle hordered hbefore

end RunRanges

section Tables

variable {fs : FileSystem}

/-- The tables are those of their keys, and different keys have different addresses. -/
structure Sharing (fs : FileSystem) (s : Building) : Prop where
  loads : ∀ files table, s.tables.find files = some table →
    loadMappingFiles fs files = .ok table.table
  fresh : ∀ files table, s.tables.find files = some table → table.address < s.allocated
  distinct : ∀ files files' table table', s.tables.find files = some table →
    s.tables.find files' = some table' → table.address = table'.address → table = table'

theorem tableOf_eq_ok {files : List MappingFile} {s s' : Building} {table : SharedTable}
    (h : tableOf fs files s = .ok (table, s')) (hs : Sharing fs s) :
    Sharing fs s' ∧ s'.runTables = s.runTables ∧ s'.tables.find files = some table ∧
      ∀ files' table', s.tables.find files' = some table' →
        s'.tables.find files' = some table' := by
  rw [tableOf] at h
  split at h
  · rename_i known hknown
    obtain ⟨rfl, rfl⟩ := Prod.mk.inj (Except.ok.inj h)
    exact ⟨hs, rfl, hknown, fun _ _ hfind => hfind⟩
  · rename_i hnone
    obtain ⟨loaded, hloaded, h⟩ := bind_eq_ok.mp h
    obtain ⟨rfl, rfl⟩ := Prod.mk.inj (Except.ok.inj h)
    have hfind (files' : List MappingFile) (table' : SharedTable) :
        (s.tables.insert files ⟨s.allocated, loaded⟩).find files' = some table' ↔
          files' = files ∧ table' = ⟨s.allocated, loaded⟩ ∨
            s.tables.find files' = some table' := by
      rw [OrderedMap.find_insert]
      by_cases hfiles : files' = files
      · simp [hfiles, hnone, eq_comm]
      · simp [hfiles]
    refine ⟨⟨fun files' table' h' => ?_, fun files' table' h' => ?_,
      fun f f' t t' ht ht' haddress => ?_⟩, rfl, by simp, fun files' table' h' => ?_⟩
    · rcases (hfind files' table').mp h' with ⟨rfl, rfl⟩ | h'
      · exact hloaded
      · exact hs.loads files' table' h'
    · rcases (hfind files' table').mp h' with ⟨rfl, rfl⟩ | h'
      · exact Nat.lt_succ_self _
      · exact (hs.fresh files' table' h').trans (Nat.lt_succ_self _)
    · rcases (hfind f t).mp ht with ⟨rfl, rfl⟩ | hold <;>
        rcases (hfind f' t').mp ht' with ⟨rfl, rfl⟩ | hold'
      · rfl
      · exact absurd haddress (hs.fresh f' t' hold').ne'
      · exact absurd haddress (hs.fresh f t hold).ne
      · exact hs.distinct f f' t t' hold hold' haddress
    · exact (hfind files' table').mpr (.inr h')

structure Built (fs : FileSystem) (manifests : List DetectorManifest)
    (done : List (UInt64 × UInt64)) (s : Building) : Prop where
  sharing : Sharing fs s
  ordered : Ordered s.runTables
  known : ∀ segment ∈ done, ∃ files, selectMappingFiles fs manifests segment.1 = .ok files ∧
    (files ≠ [] → ∃ table, s.tables.find files = some table)
  covers : ∀ runNumber table, Covers s.runTables runNumber table ↔
    ∃ segment ∈ done, segment.1 ≤ runNumber ∧ runNumber ≤ segment.2 ∧ ∃ files,
      selectMappingFiles fs manifests segment.1 = .ok files ∧ files ≠ [] ∧
        s.tables.find files = some table

variable {manifests : List DetectorManifest} {done : List (UInt64 × UInt64)}
  {segment : UInt64 × UInt64} {s s' : Building}

theorem Built.before (h : Built fs manifests done s) (hdone : ∀ d ∈ done, d.2 < segment.1)
    {t : RunRangeTable} (ht : t ∈ s.runTables) : t.runMax < segment.1 := by
  have hcovers := (h.covers t.runMax t.table).mp ⟨t, ht, h.ordered.nonempty t ht, le_rfl, rfl⟩
  obtain ⟨d, hd, -, hle, -⟩ := hcovers
  exact hle.trans_lt (hdone d hd)

theorem Built.same (h : Built fs manifests done s) (hsharing : Sharing fs s')
    (hkept : ∀ files table, s.tables.find files = some table → s'.tables.find files = some table)
    {files : List MappingFile} {table : SharedTable} (hfind : s'.tables.find files = some table)
    {t : RunRangeTable} (ht : t ∈ s.runTables) (haddress : t.table.address = table.address) :
    t.table = table := by
  have hcovers := (h.covers t.runMin t.table).mp ⟨t, ht, le_rfl, h.ordered.nonempty t ht, rfl⟩
  obtain ⟨-, -, -, -, files', -, -, hfind'⟩ := hcovers
  exact hsharing.distinct _ _ _ _ (hkept _ _ hfind') hfind haddress

theorem Built.skip (h : Built fs manifests done s)
    (hfiles : selectMappingFiles fs manifests segment.1 = .ok []) :
    Built fs manifests (done ++ [segment]) s := by
  refine ⟨h.sharing, h.ordered, ?_, fun runNumber table => ?_⟩
  · exact forall_mem_concat.mpr ⟨h.known, [], hfiles, fun hne => absurd rfl hne⟩
  · rw [h.covers, exists_mem_concat]
    refine (or_iff_left ?_).symm
    intro hh
    obtain ⟨-, -, files, hfiles', hne, -⟩ := hh
    exact hne (Except.ok.inj (hfiles'.symm.trans hfiles))

theorem Built.kept (h : Built fs manifests done s)
    (hkept : ∀ files table, s.tables.find files = some table → s'.tables.find files = some table)
    {d : UInt64 × UInt64} (hd : d ∈ done) {files : List MappingFile}
    (hfiles : selectMappingFiles fs manifests d.1 = .ok files) (hne : files ≠ [])
    (table : SharedTable) :
    s.tables.find files = some table ↔ s'.tables.find files = some table := by
  constructor
  · exact hkept files table
  · intro hfind
    obtain ⟨files', hfiles', hknown⟩ := h.known d hd
    obtain rfl := Except.ok.inj (hfiles.symm.trans hfiles')
    obtain ⟨old, hold⟩ := hknown hne
    have hsame : old = table := Option.some.inj ((hkept files old hold).symm.trans hfind)
    exact hsame ▸ hold

theorem Built.extend (h : Built fs manifests done s) (hle : segment.1 ≤ segment.2)
    (hdone : ∀ d ∈ done, d.2 < segment.1) {files : List MappingFile}
    (hfiles : selectMappingFiles fs manifests segment.1 = .ok files) (hne : files ≠ [])
    {table : SharedTable} (htable : tableOf fs files s = .ok (table, s')) :
    Built fs manifests (done ++ [segment])
      { s' with runTables := appendRunRange s'.runTables segment.1 segment.2 table } := by
  obtain ⟨hsharing, hruns, hfind, hkept⟩ := tableOf_eq_ok htable h.sharing
  obtain ⟨hordered, hcovers⟩ := appendRunRange_spec hle h.ordered
    (fun t ht => h.before hdone ht) (fun t ht => h.same hsharing hkept hfind ht)
  rw [← hruns] at hordered hcovers
  refine ⟨⟨hsharing.loads, hsharing.fresh, hsharing.distinct⟩, hordered, ?_,
    fun runNumber table' => ?_⟩
  · refine forall_mem_concat.mpr ⟨fun d hd => ?_, files, hfiles, fun _ => ⟨table, hfind⟩⟩
    obtain ⟨files', hfiles', hknown⟩ := h.known d hd
    refine ⟨files', hfiles', fun hne' => ?_⟩
    obtain ⟨t, ht⟩ := hknown hne'
    exact ⟨t, hkept files' t ht⟩
  · rw [hcovers, hruns, h.covers, exists_mem_concat]
    refine or_congr ?_ ?_
    · constructor
      · intro hh
        obtain ⟨d, hd, hlo, hhi, files', hfiles', hne', hfind'⟩ := hh
        exact ⟨d, hd, hlo, hhi, files', hfiles', hne', hkept _ _ hfind'⟩
      · intro hh
        obtain ⟨d, hd, hlo, hhi, files', hfiles', hne', hfind'⟩ := hh
        have hold := (h.kept hkept hd hfiles' hne' table').mpr hfind'
        exact ⟨d, hd, hlo, hhi, files', hfiles', hne', hold⟩
    · constructor
      · intro hh
        obtain ⟨hlo, hhi, rfl⟩ := hh
        exact ⟨hlo, hhi, files, hfiles, hne, hfind⟩
      · intro hh
        obtain ⟨hlo, hhi, files', hfiles', -, hfind'⟩ := hh
        obtain rfl := Except.ok.inj (hfiles'.symm.trans hfiles)
        exact ⟨hlo, hhi, Option.some.inj (hfind.symm.trans hfind')⟩

theorem addRunRange_built (h : Built fs manifests done s) (hle : segment.1 ≤ segment.2)
    (hdone : ∀ d ∈ done, d.2 < segment.1) (hadd : addRunRange fs manifests s segment = .ok s') :
    Built fs manifests (done ++ [segment]) s' := by
  obtain ⟨files, hfiles, hadd⟩ := bind_eq_ok.mp hadd
  by_cases hnil : files = []
  · subst hnil
    obtain rfl := Except.ok.inj hadd
    exact h.skip hfiles
  · rw [if_neg hnil] at hadd
    obtain ⟨⟨table, s''⟩, htable, hadd⟩ := bind_eq_ok.mp hadd
    obtain rfl := Except.ok.inj hadd
    exact h.extend hle hdone hfiles hnil htable

/-- After all segments, the run ranges give each run the table of the files selected at
the start of its segment. -/
theorem built_of_foldlM {cuts : List UInt64} (hcuts : cuts.Pairwise (· < ·))
    (h : (segments cuts).foldlM (addRunRange fs manifests) {} = .ok s) :
    Built fs manifests (segments cuts) s := by
  have hincreasing := segments_increasing hcuts
  refine foldlM_invariant (I := Built fs manifests) ?_ ?_ h
  · refine ⟨⟨?_, ?_, ?_⟩, ⟨by simp, .nil⟩, by simp, fun runNumber table => ?_⟩
    · simp
    · simp
    · simp
    · simp [Covers]
  · intro pre segment post t t' hsplit ht hadd
    have hdisjoint := hincreasing.disjoint
    rw [hsplit] at hdisjoint
    exact addRunRange_built ht (hincreasing.nonempty segment (by simp [hsplit]))
      (fun d hd => (List.pairwise_append.mp hdisjoint).2.2 d hd segment (by simp)) hadd

end Tables

section Runs

variable {fs : FileSystem} {c : Configuration} {runTables : List RunRangeTable}

structure Selection where
  detector : String
  directory : Path
  mappingFile : String
  deriving DecidableEq, Repr

/-- The manifest of the detector has a range for the mapping file that contains the run. -/
def Selects (fs : FileSystem) (providers : List DetectorMappingCatalogProvider)
    (runNumber : UInt64) (x : Selection) : Prop :=
  ∃ provider ∈ providers, ∃ entry, CatalogLists fs (catalogPath provider).string entry ∧
    entry.detector = x.detector ∧ ∃ manifestPath,
      resolveOwnedPath fs ⟨provider.directory⟩ ⟨entry.manifestFile⟩ "Detector manifest" =
        .ok manifestPath ∧
      manifestPath.parentPath = x.directory ∧
      ∃ range, ManifestLists fs manifestPath.string range ∧ range.mappingFile = x.mappingFile ∧
        range.runMin ≤ runNumber ∧ runNumber ≤ range.runMax

def Selection.Gives (fs : FileSystem) (x : Selection) (daq : DAQAddress)
    (address : DetectorAddress) : Prop :=
  ∃ path, resolveOwnedPath fs x.directory ⟨x.mappingFile⟩ "Mapping file" = .ok path ∧
    TranslationTable.MappingGives fs path.string daq address

theorem selects_iff {s : Manifests} (h : c.providers.foldlM (loadCatalog fs) {} = .ok s)
    (runNumber : UInt64) (x : Selection) :
    Selects fs c.providers runNumber x ↔
      ∃ manifest range, Active s.detectorManifests runNumber manifest range ∧
        x = ⟨manifest.detector, manifest.directory, range.mappingFile⟩ := by
  have hread := loadCatalogs_eq_ok h
  constructor
  · rintro ⟨provider, hprovider, entry, hentry, hdetector, manifestPath, hpath, hdirectory, range,
      hrange, hfile, hle, hge⟩
    obtain ⟨manifest, hmanifest⟩ := hread.read provider hprovider entry hentry
    have hm := (hread.mem_iff manifest).mpr ⟨provider, hprovider, entry, hentry, hmanifest⟩
    obtain ⟨hdetector', manifestPath', hpath', hdirectory', hranges⟩ := hmanifest
    obtain rfl := Except.ok.inj (hpath.symm.trans hpath')
    refine ⟨manifest, range, ⟨hm, ((loadDetectorMappingManifest_eq_ok hranges).1 range).mpr hrange,
      hle, hge⟩, ?_⟩
    rw [hdetector', hdirectory', hdetector, hdirectory, hfile]
  · intro hh
    obtain ⟨manifest, range, ⟨hm, hr, hle, hge⟩, rfl⟩ := hh
    obtain ⟨provider, hprovider, entry, hentry, hdetector, manifestPath, hpath, hdirectory,
      hranges⟩ := (hread.mem_iff manifest).mp hm
    exact ⟨provider, hprovider, entry, hentry, hdetector.symm, manifestPath, hpath,
      hdirectory.symm, range, ((loadDetectorMappingManifest_eq_ok hranges).1 range).mp hr, rfl, hle,
      hge⟩

theorem covers_iff_selects {s : Manifests} {built : Building}
    (hmanifests : c.providers.foldlM (loadCatalog fs) {} = .ok s)
    (hbuilt : Built fs s.detectorManifests (segments s.boundaries.keys) built)
    (runNumber : UInt64) :
    (∃ table, Covers built.runTables runNumber table) ↔
      ∃ x, Selects fs c.providers runNumber x := by
  have hread := loadCatalogs_eq_ok hmanifests
  have hinc := allIncreasing_of_loadCatalogs hmanifests
  constructor
  · intro hh
    obtain ⟨table, hcovers⟩ := hh
    obtain ⟨segment, hsegment, hlo, hhi, files, hfiles, hne, -⟩ :=
      (hbuilt.covers runNumber table).mp hcovers
    obtain ⟨manifest, range, hstart⟩ := (selectMappingFiles_ne_nil_iff hinc hfiles).mp hne
    have hactive := (active_segment_iff hread.cut hsegment ⟨hlo, hhi⟩).mpr hstart
    exact ⟨_, (selects_iff hmanifests runNumber _).mpr ⟨manifest, range, hactive, rfl⟩⟩
  · intro hh
    obtain ⟨x, hx⟩ := hh
    obtain ⟨manifest, range, hactive, -⟩ := (selects_iff hmanifests runNumber x).mp hx
    have hcut := hread.cut manifest hactive.manifest_mem range hactive.range_mem _ (.inl rfl)
    obtain ⟨segment, hsegment, hlo, hhi⟩ :=
      exists_segment hcut hactive.le_run s.boundaries.keys_sorted
    obtain ⟨files, hfiles, hknown⟩ := hbuilt.known segment hsegment
    have hstart := (active_segment_iff hread.cut hsegment ⟨hlo, hhi⟩).mp hactive
    have hne := (selectMappingFiles_ne_nil_iff hinc hfiles).mpr ⟨manifest, range, hstart⟩
    obtain ⟨table, htable⟩ := hknown hne
    exact ⟨table, (hbuilt.covers runNumber table).mpr
      ⟨segment, hsegment, hlo, hhi, files, hfiles, hne, htable⟩⟩

theorem lookup_iff_gives {s : Manifests} {built : Building}
    (hmanifests : c.providers.foldlM (loadCatalog fs) {} = .ok s)
    (hbuilt : Built fs s.detectorManifests (segments s.boundaries.keys) built)
    {runNumber : UInt64} {table : SharedTable} (hcovers : Covers built.runTables runNumber table)
    (daq : DAQAddress) (address : DetectorAddress) :
    table.table.lookup daq = some address ↔
      ∃ x, Selects fs c.providers runNumber x ∧ x.Gives fs daq address := by
  have hread := loadCatalogs_eq_ok hmanifests
  have hinc := allIncreasing_of_loadCatalogs hmanifests
  obtain ⟨segment, hsegment, hlo, hhi, files, hfiles, -, htable⟩ :=
    (hbuilt.covers runNumber table).mp hcovers
  have hselected := selectMappingFiles_eq_ok hinc hfiles
  rw [lookup_loadMappingFiles (hbuilt.sharing.loads files table htable)]
  constructor
  · intro hh
    obtain ⟨file, hfile, hgives⟩ := hh
    obtain ⟨manifest, range, hstart, path, hpath, rfl⟩ := hselected.active file hfile
    have hactive := (active_segment_iff hread.cut hsegment ⟨hlo, hhi⟩).mpr hstart
    have hselects : Selects fs c.providers runNumber
        ⟨manifest.detector, manifest.directory, range.mappingFile⟩ :=
      (selects_iff hmanifests runNumber _).mpr ⟨manifest, range, hactive, rfl⟩
    exact ⟨_, hselects, path, hpath, hgives⟩
  · intro hh
    obtain ⟨x, hx, path, hpath, hgives⟩ := hh
    obtain ⟨manifest, range, hactive, rfl⟩ := (selects_iff hmanifests runNumber x).mp hx
    have hstart := (active_segment_iff hread.cut hsegment ⟨hlo, hhi⟩).mp hactive
    obtain ⟨path', hpath', hfile⟩ := hselected.listed manifest range hstart
    obtain rfl := Except.ok.inj (hpath.symm.trans hpath')
    exact ⟨_, hfile, hgives⟩

theorem loadTables_eq_ok (hproviders : c.providers ≠ []) (h : loadTables fs c = .ok runTables) :
    Ordered runTables ∧
      (∀ runNumber, (∃ table, Covers runTables runNumber table) ↔
        ∃ x, Selects fs c.providers runNumber x) ∧
      ∀ runNumber table, Covers runTables runNumber table → ∀ daq address,
        table.table.lookup daq = some address ↔
          ∃ x, Selects fs c.providers runNumber x ∧ x.Gives fs daq address := by
  rw [loadTables, if_neg hproviders] at h
  obtain ⟨manifests, hmanifests, h⟩ := bind_eq_ok.mp h
  obtain ⟨s, hs, h⟩ := bind_eq_ok.mp h
  obtain ⟨-, h⟩ := ite_error_eq_ok.mp h
  obtain rfl := Except.ok.inj h
  have hbuilt := built_of_foldlM manifests.boundaries.keys_sorted hs
  exact ⟨hbuilt.ordered, covers_iff_selects hmanifests hbuilt,
    fun runNumber table hcovers => lookup_iff_gives hmanifests hbuilt hcovers⟩

theorem findRunTable_eq_some_iff (h : Ordered runTables) {runNumber : UInt64} {t : RunRangeTable} :
    findRunTable runTables runNumber = some t ↔
      t ∈ runTables ∧ t.runMin ≤ runNumber ∧ runNumber ≤ t.runMax :=
  search_eq_some_iff h

theorem findRunTable_isSome_iff (h : Ordered runTables) {runNumber : UInt64} :
    (findRunTable runTables runNumber).isSome ↔ ∃ table, Covers runTables runNumber table := by
  rw [findRunTable, search_isSome_iff h]
  constructor
  · intro hh
    obtain ⟨t, ht, hcontains⟩ := hh
    exact ⟨t.table, t, ht, hcontains.1, hcontains.2, rfl⟩
  · intro hh
    obtain ⟨-, t, ht, hlo, hhi, -⟩ := hh
    exact ⟨t, ht, hlo, hhi⟩

def answer (runTables : List RunRangeTable) (runNumber : UInt64) : Except String SharedTable :=
  match findRunTable runTables runNumber with
  | some t => .ok t.table
  | none => .error (noTable runNumber)

/-- The service has not loaded its tables, or has them and one of them cached at most. -/
def Service.Consistent (c : Configuration) (runTables : List RunRangeTable) (service : Service) :
    Prop :=
  service.configuration = c ∧ (service.loaded = true →
    service.runTables = runTables ∧ ∀ cached ∈ service.cachedRunTable, cached ∈ runTables)

theorem Service.Consistent.load {service : Service} (hs : service.Consistent c runTables)
    (hcached : ∀ cached ∈ service.cachedRunTable, cached ∈ runTables)
    (h : loadTables fs c = .ok runTables) :
    ∃ loaded, service.load fs = .ok loaded ∧ loaded.loaded = true ∧
      loaded.Consistent c runTables := by
  obtain ⟨hc, hloaded⟩ := hs
  rw [Service.load]
  split
  · rename_i hl
    exact ⟨service, rfl, hl, hc, hloaded⟩
  · rw [hc, h, bind_ok]
    refine ⟨_, rfl, rfl, hc ▸ rfl, fun _ => ⟨rfl, ?_⟩⟩
    by_cases hproviders : c.providers = []
    · simpa [hproviders] using hcached
    · simp [hproviders]

theorem Service.Consistent.getTable {service : Service} (hs : service.Consistent c runTables)
    (hcached : ∀ cached ∈ service.cachedRunTable, cached ∈ runTables)
    (h : loadTables fs c = .ok runTables) (hordered : Ordered runTables) (runNumber : UInt64) :
    (service.getTable fs runNumber).1 = answer runTables runNumber ∧
      (service.getTable fs runNumber).2.Consistent c runTables ∧
      (service.getTable fs runNumber).2.loaded = true := by
  obtain ⟨loaded, hload, hl, hs⟩ := hs.load hcached h
  obtain ⟨hruns, hcached⟩ := hs.2 hl
  rw [Service.getTable, hload]
  dsimp only
  cases hfor : loaded.cachedFor runNumber with
  | some cached =>
    have hfilter := Option.filter_eq_some_iff.mp hfor
    have hin : cached.runMin ≤ runNumber ∧ runNumber ≤ cached.runMax := by simpa using hfilter.2
    have hfind := (findRunTable_eq_some_iff hordered).mpr ⟨hcached cached hfilter.1, hin⟩
    exact ⟨by rw [answer, hfind], hs, hl⟩
  | none =>
    rw [hruns, answer]
    cases hfind : findRunTable runTables runNumber with
    | none => exact ⟨rfl, hs, hl⟩
    | some t =>
      refine ⟨rfl, ⟨hs.1, fun _ => ⟨rfl, fun cached hc => ?_⟩⟩, hl⟩
      obtain rfl := Option.some.inj hc
      exact ((findRunTable_eq_some_iff hordered).mp hfind).1

def Service.afterCalls (fs : FileSystem) (service : Service) (earlier : List UInt64) : Service :=
  earlier.foldl (fun service runNumber => (service.getTable fs runNumber).2) service

theorem Service.Consistent.afterCalls {service : Service} (hs : service.Consistent c runTables)
    (hcached : ∀ cached ∈ service.cachedRunTable, cached ∈ runTables)
    (h : loadTables fs c = .ok runTables) (hordered : Ordered runTables) (earlier : List UInt64) :
    (service.afterCalls fs earlier).Consistent c runTables ∧
      ∀ cached ∈ (service.afterCalls fs earlier).cachedRunTable, cached ∈ runTables := by
  induction earlier generalizing service with
  | nil => exact ⟨hs, hcached⟩
  | cons runNumber earlier ih =>
    obtain ⟨-, hs', hloaded⟩ := hs.getTable hcached h hordered runNumber
    exact ih hs' (hs'.2 hloaded).2

theorem loadTables_ordered (h : loadTables fs c = .ok runTables) : Ordered runTables := by
  by_cases hproviders : c.providers = []
  · rw [loadTables, if_pos hproviders] at h
    obtain rfl := Except.ok.inj h
    exact ⟨by simp [le_maxValue], List.pairwise_singleton _ _⟩
  · exact (loadTables_eq_ok hproviders h).1

theorem getTable_afterCalls (h : loadTables fs c = .ok runTables) (earlier : List UInt64)
    (runNumber : UInt64) : (Service.getTable fs
      (Service.afterCalls fs { configuration := c } earlier) runNumber).1 =
        answer runTables runNumber := by
  have hordered := loadTables_ordered h
  have hstart : Service.Consistent c runTables { configuration := c } :=
    ⟨rfl, fun hloaded => absurd hloaded (by simp)⟩
  obtain ⟨hs, hcached⟩ := hstart.afterCalls (by simp) h hordered earlier
  exact (hs.getTable hcached h hordered runNumber).1

end Runs

/-- For every run number, the binary search over the loaded run tables finds a table exactly
if some mapping file is selected, the table translates exactly what the selected mapping
files give, and `getTable` answers with it, or throws if there is none. -/
theorem loadTables_correct (fs : FileSystem) (c : Configuration) (hproviders : c.providers ≠ [])
    (runTables : List RunRangeTable) (h : loadTables fs c = .ok runTables) (runNumber : UInt64) :
    ((findRunTable runTables runNumber).isSome ↔ ∃ x, Selects fs c.providers runNumber x) ∧
      (∀ t, findRunTable runTables runNumber = some t →
        (∀ daq address, t.table.table.lookup daq = some address ↔
          ∃ x, Selects fs c.providers runNumber x ∧ x.Gives fs daq address) ∧
        ∀ earlier, (Service.getTable fs (Service.afterCalls fs { configuration := c } earlier)
          runNumber).1 = .ok t.table) ∧
      ((¬ ∃ x, Selects fs c.providers runNumber x) →
        ∀ earlier, (Service.getTable fs (Service.afterCalls fs { configuration := c } earlier)
          runNumber).1 = .error (noTable runNumber)) := by
  obtain ⟨hordered, hselected, hlookup⟩ := loadTables_eq_ok hproviders h
  have hfound := (findRunTable_isSome_iff hordered).trans (hselected runNumber)
  have hanswer := getTable_afterCalls h
  refine ⟨hfound, fun t ht => ⟨?_, fun earlier => ?_⟩, fun hnone earlier => ?_⟩
  · obtain ⟨hmem, hlo, hhi⟩ := (findRunTable_eq_some_iff hordered).mp ht
    exact hlookup runNumber t.table ⟨t, hmem, hlo, hhi, rfl⟩
  · rw [hanswer earlier runNumber, answer, ht]
  · have hmissing : findRunTable runTables runNumber = none := by
      rw [← hfound] at hnone
      simpa using hnone
    rw [hanswer earlier runNumber, answer, hmissing]

def singleDetector : FileSystem where
  read path :=
    if path = "/maps/manifest.map" then some ⟨"BCAL bcal/manifest.map\n", true⟩
    else if path = "/maps/bcal/manifest.map" then some ⟨"# runs\n5 max bcal.map\n", true⟩
    else if path = "/maps/bcal/bcal.map" then
      some ⟨"detector BCAL\nfields module end\n2 4 none 7 -1\n", true⟩
    else none
  weaklyCanonical path := .ok path

theorem loadTables_correct_single :
    (findRunTable [⟨5, maxValue, ⟨0, ⟨OrderedMap.insert ∅ ⟨2, 4, 0xFFFFFFFF⟩
      ⟨"BCAL", [("module", 7), ("end", -1)]⟩⟩⟩⟩] 5).isSome ↔
        ∃ x, Selects singleDetector [⟨"TRANSLATION:DIRECTORY", "/maps"⟩] 5 x :=
  (loadTables_correct singleDetector ⟨"/maps", [], []⟩ (by decide +kernel) _
    (by decide +kernel) 5).1

end JanaExtensions.TranslationService
