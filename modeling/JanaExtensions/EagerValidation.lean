import JanaExtensions.RunSelection
import Mathlib.Data.List.Pairwise

/-! Which configurations the service loads: those whose files can all be read, and in
which no run has an address in two mapping files. -/

namespace JanaExtensions

open Failing IntervalTable

namespace TranslationTable

variable {fs : FileSystem} {path expectedDetector : String} {table loaded : TranslationTable}

def Disjoint (table loaded : TranslationTable) : Prop :=
  ∀ daq address, loaded.lookup daq = some address → table.lookup daq = none

/-- The entries of the loaded file that are passed are those that the combined table has more. -/
def Adds (table : TranslationTable) (entries : List (DAQAddress × DetectorAddress))
    (combined : TranslationTable) : Prop :=
  ∀ daq, combined.lookup daq = none ↔ table.lookup daq = none ∧ ∀ entry ∈ entries, entry.1 ≠ daq

theorem Adds.insert {entries : List (DAQAddress × DetectorAddress)} {t : TranslationTable}
    {entry : DAQAddress × DetectorAddress} (h : Adds table entries t)
    (hnew : (t.insert entry.1 entry.2).2 = true) :
    Adds table (entries ++ [entry]) (t.insert entry.1 entry.2).1 := by
  intro daq
  have hlookup (address : DetectorAddress) := lookup_insert hnew daq address
  rw [Option.eq_none_iff_forall_ne_some]
  simp only [ne_eq, hlookup, not_or, forall_and, ← Option.eq_none_iff_forall_ne_some, h daq]
  constructor
  · intro hh
    obtain ⟨⟨hnone, hpre⟩, hne⟩ := hh
    exact ⟨hnone, forall_mem_concat.mpr ⟨hpre, fun heq => hne entry.2 ⟨heq.symm, rfl⟩⟩⟩
  · intro hh
    obtain ⟨hnone, hpre⟩ := hh
    exact ⟨⟨hnone, fun e he => hpre e (by simp [he])⟩,
      fun address heq => hpre entry (by simp) heq.1.symm⟩

theorem combine_disjoint {combined : TranslationTable} (h : combine path table loaded = .ok combined) :
    Disjoint table loaded := by
  have hentries : Adds table loaded.entries.entries combined ∧
      ∀ entry ∈ loaded.entries.entries, table.lookup entry.1 = none := by
    refine foldlM_invariant (I := fun entries combined => Adds table entries combined ∧
      ∀ entry ∈ entries, table.lookup entry.1 = none) (by simp [Adds]) ?_ h
    rintro pre entry post t t' - ⟨hadds, hpre⟩ hinsert
    obtain ⟨hnew, hinsert⟩ := ite_error_eq_ok.mp hinsert
    obtain rfl := Except.ok.inj hinsert
    have hnew : (t.insert entry.1 entry.2).2 = true := by simpa using hnew
    refine ⟨hadds.insert hnew, forall_mem_concat.mpr ⟨hpre, ?_⟩⟩
    exact ((hadds entry.1).mp (insert_eq_true_iff.mp hnew)).1
  intro daq address hlookup
  exact hentries.2 (daq, address) (OrderedMap.mem_entries_iff.mpr hlookup)

theorem exists_combine (h : Disjoint table loaded) :
    ∃ combined, combine path table loaded = .ok combined := by
  have hstep : ∀ pre entry post t, loaded.entries.entries = pre ++ entry :: post →
      Adds table pre t → (t.insert entry.1 entry.2).2 = true := by
    intro pre entry post t hsplit ht
    have hsorted := loaded.entries.sorted
    rw [hsplit] at hsorted
    have hfresh : ∀ e ∈ pre, e.1 ≠ entry.1 := fun e he =>
      ((List.pairwise_append.mp hsorted).2.2 e he entry (by simp)).ne
    have hmem : (entry.1, entry.2) ∈ loaded.entries.entries := by simp [hsplit]
    exact insert_eq_true_iff.mpr ((ht entry.1).mpr
      ⟨h entry.1 entry.2 (OrderedMap.mem_entries_iff.mp hmem), hfresh⟩)
  have htotal : ∃ combined, combine path table loaded = .ok combined ∧
      Adds table loaded.entries.entries combined := by
    refine foldlM_total (by simp [Adds]) ?_
    intro pre entry post t hsplit ht
    have hnew := hstep pre entry post t hsplit ht
    exact ⟨_, by simp [hnew], ht.insert hnew⟩
  obtain ⟨combined, hcombined, -⟩ := htotal
  exact ⟨combined, hcombined⟩

theorem loadMappingFile_iff :
    (∃ table', loadMappingFile fs table path expectedDetector = .ok table') ↔
      ∃ alone, loadMappingFile fs {} path expectedDetector = .ok alone ∧ Disjoint table alone := by
  have hempty : ∀ t : TranslationTable, Disjoint {} t := fun _ _ _ _ => rfl
  constructor
  · intro hh
    obtain ⟨table', h⟩ := hh
    obtain ⟨content, s, hread, hrows, heof, hd, hf, hcombine⟩ := loadMappingFile_ok_iff.mp h
    have hcombined : ∃ alone, combine path {} s.loaded = .ok alone :=
      exists_combine (hempty s.loaded)
    obtain ⟨alone, halone⟩ := hcombined
    refine ⟨alone, loadMappingFile_ok_iff.mpr ⟨content, s, hread, hrows, heof, hd, hf, halone⟩, ?_⟩
    intro daq address hlookup
    rw [lookup_combine halone] at hlookup
    rcases hlookup with hlookup | hlookup
    · cases hlookup
    · exact combine_disjoint hcombine daq address hlookup
  · intro hh
    obtain ⟨alone, h, hdisjoint⟩ := hh
    obtain ⟨content, s, hread, hrows, heof, hd, hf, halone⟩ := loadMappingFile_ok_iff.mp h
    have hs : Disjoint table s.loaded := fun daq address hlookup =>
      hdisjoint daq address ((lookup_combine halone daq address).mpr (.inr hlookup))
    have hcombined : ∃ table', combine path table s.loaded = .ok table' := exists_combine hs
    obtain ⟨table', hcombine⟩ := hcombined
    exact ⟨table', loadMappingFile_ok_iff.mpr ⟨content, s, hread, hrows, heof, hd, hf, hcombine⟩⟩

end TranslationTable

theorem catalogRows_nodup {path : String} {rows : List (Nat × List String)}
    {entries : List DetectorMappingCatalogEntry}
    (h : rows.foldlM (catalogRow path) [] = .ok entries) :
    (entries.map DetectorMappingCatalogEntry.detector).Nodup := by
  refine foldlM_invariant (I := fun _ entries =>
    (entries.map DetectorMappingCatalogEntry.detector).Nodup) (by simp) ?_ h
  rintro pre ⟨lineNumber, tokens⟩ post entries entries' - hnodup hrow
  match tokens with
  | [] =>
    obtain rfl := Except.ok.inj hrow
    exact hnodup
  | [detector, manifestFile] =>
    obtain ⟨hnew, hrow⟩ := ite_error_eq_ok.mp hrow
    obtain rfl := Except.ok.inj hrow
    rw [List.map_append, List.nodup_append]
    refine ⟨hnodup, List.nodup_singleton _, ?_⟩
    intro a ha b hb heq
    rw [heq, List.mem_singleton.mp hb] at ha
    exact hnew ha
  | [_] => simp [catalogRow] at hrow
  | _ :: _ :: _ :: _ => simp [catalogRow] at hrow

theorem loadDetectorMappingCatalog_nodup {fs : FileSystem} {path : String}
    {entries : List DetectorMappingCatalogEntry}
    (h : loadDetectorMappingCatalog fs path = .ok entries) :
    (entries.map DetectorMappingCatalogEntry.detector).Nodup ∧ entries ≠ [] := by
  obtain ⟨content, unsorted, -, hrows, -, hne, rfl⟩ := loadDetectorMappingCatalog_ok_iff.mp h
  have hperm := List.perm_insertionSort
    (fun a b : DetectorMappingCatalogEntry => a.detector ≤ b.detector) unsorted
  refine ⟨(hperm.map _).nodup_iff.mpr (catalogRows_nodup hrows), ?_⟩
  intro hnil
  exact hne (List.perm_nil.mp (hnil ▸ hperm.symm))

theorem loadDetectorMappingManifest_ne_nil {fs : FileSystem} {path : String}
    {ranges : List DetectorMappingRunRange} (h : loadDetectorMappingManifest fs path = .ok ranges) :
    ranges ≠ [] := by
  obtain ⟨content, unsorted, -, -, -, hne, -, rfl⟩ := loadDetectorMappingManifest_ok_iff.mp h
  have hperm := List.perm_insertionSort
    (fun a b : DetectorMappingRunRange => a.runMin ≤ b.runMin) unsorted
  intro hnil
  exact hne (List.perm_nil.mp (hnil ▸ hperm.symm))

namespace TranslationService

section Files

variable {fs : FileSystem} {manifests : List DetectorManifest} {runNumber : UInt64}

def LoadsAlone (fs : FileSystem) (file : MappingFile) : Prop :=
  ∃ table, TranslationTable.loadMappingFile fs {} file.path file.detector = .ok table

/-- The mapping files have no DAQ address in common. -/
def Apart (fs : FileSystem) (f g : MappingFile) : Prop :=
  ∀ daq a b, TranslationTable.MappingGives fs f.path daq a →
    ¬ TranslationTable.MappingGives fs g.path daq b

instance : Std.Symm (Apart fs) := ⟨fun _ _ h daq a b ha hb => h daq b a hb ha⟩

structure Loaded (fs : FileSystem) (files : List MappingFile) (table : TranslationTable) :
    Prop where
  loads : ∀ file ∈ files, LoadsAlone fs file
  apart : files.Pairwise (Apart fs)
  gives : ∀ daq address, table.lookup daq = some address ↔
    ∃ file ∈ files, TranslationTable.MappingGives fs file.path daq address

theorem Loaded.disjoint_iff {files : List MappingFile} {table alone : TranslationTable}
    {file : MappingFile} (h : Loaded fs files table)
    (halone : TranslationTable.loadMappingFile fs {} file.path file.detector = .ok alone) :
    TranslationTable.Disjoint table alone ↔ ∀ f ∈ files, Apart fs f file := by
  have hgives (daq : DAQAddress) (address : DetectorAddress) : alone.lookup daq = some address ↔
      TranslationTable.MappingGives fs file.path daq address := by
    rw [TranslationTable.lookup_loadMappingFile halone]
    exact or_iff_right (by simp [TranslationTable.lookup])
  constructor
  · intro hdisjoint f hf daq a b ha hb
    have hnone := hdisjoint daq b ((hgives daq b).mpr hb)
    have hsome := (h.gives daq a).mpr ⟨f, hf, ha⟩
    rw [hnone] at hsome
    cases hsome
  · intro hh daq b hb
    apply Option.eq_none_iff_forall_ne_some.mpr
    intro a ha
    obtain ⟨f, hf, hfa⟩ := (h.gives daq a).mp ha
    exact hh f hf daq a b hfa ((hgives daq b).mp hb)

theorem Loaded.append {files : List MappingFile} {table table' : TranslationTable}
    {file : MappingFile} (h : Loaded fs files table)
    (hload : TranslationTable.loadMappingFile fs table file.path file.detector = .ok table') :
    Loaded fs (files ++ [file]) table' := by
  obtain ⟨alone, halone, hdisjoint⟩ := TranslationTable.loadMappingFile_iff.mp ⟨table', hload⟩
  refine ⟨?_, ?_, ?_⟩
  · exact forall_mem_concat.mpr ⟨h.loads, alone, halone⟩
  · refine List.pairwise_append.mpr ⟨h.apart, List.pairwise_singleton _ _, ?_⟩
    intro f hf g hg
    rw [List.mem_singleton.mp hg]
    exact (h.disjoint_iff halone).mp hdisjoint f hf
  · intro daq address
    rw [TranslationTable.lookup_loadMappingFile hload, h.gives, exists_mem_concat]

theorem loaded_nil : Loaded fs [] {} := ⟨by simp, .nil, by simp [TranslationTable.lookup]⟩

/-- The mapping files are loaded into one table if each of them can be loaded alone, and no two
of them have an address in common. -/
theorem loadMappingFiles_iff {files : List MappingFile} :
    (∃ table, loadMappingFiles fs files = .ok table) ↔
      (∀ file ∈ files, LoadsAlone fs file) ∧ files.Pairwise (Apart fs) := by
  constructor
  · intro hh
    obtain ⟨table, h⟩ := hh
    have hloaded : Loaded fs files table := by
      refine foldlM_invariant (I := Loaded fs) loaded_nil ?_ h
      intro pre file post t t' _ ht hload
      exact ht.append hload
    exact ⟨hloaded.loads, hloaded.apart⟩
  · intro hh
    obtain ⟨hloads, hapart⟩ := hh
    have htotal : ∃ table, loadMappingFiles fs files = .ok table ∧ Loaded fs files table := by
      refine foldlM_total loaded_nil ?_
      intro pre file post t hsplit ht
      rw [hsplit] at hapart
      obtain ⟨alone, halone⟩ := hloads file (by simp [hsplit])
      have hdisjoint := (ht.disjoint_iff halone).mpr fun f hf =>
        (List.pairwise_append.mp hapart).2.2 f hf file (by simp)
      obtain ⟨t', ht'⟩ := TranslationTable.loadMappingFile_iff.mpr ⟨alone, halone, hdisjoint⟩
      exact ⟨t', ht', ht.append ht'⟩
    obtain ⟨table, htable, -⟩ := htotal
    exact ⟨table, htable⟩

theorem exists_selectMappingFiles (hinc : AllIncreasing manifests)
    (h : ∀ manifest range, Active manifests runNumber manifest range → ∃ path,
      resolveOwnedPath fs manifest.directory ⟨range.mappingFile⟩ "Mapping file" = .ok path) :
    ∃ files, selectMappingFiles fs manifests runNumber = .ok files := by
  have htotal : ∃ files, selectMappingFiles fs manifests runNumber = .ok files ∧ True := by
    refine foldlM_total (I := fun _ _ => True) trivial ?_
    intro pre manifest post files hsplit _
    have hmem : manifest ∈ manifests := by simp [hsplit]
    rw [addMappingFile]
    cases hrange : findRange manifest.ranges runNumber with
    | none => exact ⟨files, rfl, trivial⟩
    | some range =>
      obtain ⟨hr, hle, hge⟩ := (findRange_eq_some_iff hinc hmem).mp hrange
      obtain ⟨path, hpath⟩ := h manifest range ⟨hmem, hr, hle, hge⟩
      exact ⟨_, bind_eq_ok.mpr ⟨path, hpath, rfl⟩, trivial⟩
  obtain ⟨files, hfiles, -⟩ := htotal
  exact ⟨files, hfiles⟩

theorem selectMappingFiles_sublist {files : List MappingFile}
    (h : selectMappingFiles fs manifests runNumber = .ok files) :
    (files.map MappingFile.detector).Sublist (manifests.map DetectorManifest.detector) := by
  refine foldlM_invariant (I := fun manifests files =>
    (files.map MappingFile.detector).Sublist (manifests.map DetectorManifest.detector)) ?_ ?_ h
  · simp
  · intro pre manifest post files files' _ hpre hadd
    rw [List.map_append]
    rcases addMappingFile_eq_ok hadd with ⟨-, rfl⟩ | ⟨range, path, -, -, rfl⟩
    · exact hpre.trans (List.sublist_append_left _ _)
    · rw [List.map_append]
      exact hpre.append (List.Sublist.refl _)

end Files

section Catalogs

variable {fs : FileSystem} {providers : List DetectorMappingCatalogProvider}

/-- The manifest of the catalog entry is in the directory of the catalog, and can be loaded. -/
def ReadsManifest (fs : FileSystem) (provider : DetectorMappingCatalogProvider)
    (entry : DetectorMappingCatalogEntry) : Prop :=
  ∃ path ranges, resolveOwnedPath fs ⟨provider.directory⟩ ⟨entry.manifestFile⟩ "Detector manifest" =
    .ok path ∧ loadDetectorMappingManifest fs path.string = .ok ranges

def DifferentDetectors (fs : FileSystem) (p q : DetectorMappingCatalogProvider) : Prop :=
  ∀ e f, CatalogLists fs (catalogPath p).string e → CatalogLists fs (catalogPath q).string f →
    e.detector ≠ f.detector

structure CatalogsValid (fs : FileSystem) (providers : List DetectorMappingCatalogProvider) :
    Prop where
  catalogs : ∀ provider ∈ providers, ∃ entries,
    loadDetectorMappingCatalog fs (catalogPath provider).string = .ok entries
  manifests : ∀ provider ∈ providers, ∀ entry,
    CatalogLists fs (catalogPath provider).string entry → ReadsManifest fs provider entry
  different : providers.Pairwise (DifferentDetectors fs)

/-- The detectors that are registered with a provider are those of the catalogs. -/
def Registered (s : Manifests) (detectors : List String) : Prop :=
  s.detectorManifests.map DetectorManifest.detector = detectors ∧
    ∀ d, d ∈ s.detectorProviders.keys ↔ d ∈ detectors

theorem loadEntry_iff {provider : DetectorMappingCatalogProvider}
    {entry : DetectorMappingCatalogEntry} {s : Manifests} {detectors : List String}
    (hs : Registered s detectors) :
    (∃ s', loadEntry fs provider s entry = .ok s') ↔
      entry.detector ∉ detectors ∧ ReadsManifest fs provider entry := by
  rw [← hs.2, OrderedMap.mem_keys_iff, loadEntry]
  cases s.detectorProviders.find entry.detector with
  | some existing => simp
  | none =>
    constructor
    · intro hh
      obtain ⟨s', h⟩ := hh
      obtain ⟨path, hpath, h⟩ := bind_eq_ok.mp h
      obtain ⟨ranges, hranges, -⟩ := bind_eq_ok.mp h
      exact ⟨by simp, path, ranges, hpath, hranges⟩
    · intro hh
      obtain ⟨-, path, ranges, hpath, hranges⟩ := hh
      exact ⟨_, bind_eq_ok.mpr ⟨path, hpath, bind_eq_ok.mpr ⟨ranges, hranges, rfl⟩⟩⟩

theorem Registered.entry {provider : DetectorMappingCatalogProvider}
    {entry : DetectorMappingCatalogEntry} {s s' : Manifests} {detectors : List String}
    (hs : Registered s detectors) (h : loadEntry fs provider s entry = .ok s') :
    Registered s' (detectors ++ [entry.detector]) := by
  rw [loadEntry] at h
  split at h
  · cases h
  · obtain ⟨path, -, h⟩ := bind_eq_ok.mp h
    obtain ⟨ranges, -, h⟩ := bind_eq_ok.mp h
    obtain rfl := Except.ok.inj h
    refine ⟨by simp [hs.1], ?_⟩
    intro d
    rw [OrderedMap.mem_keys_insert, hs.2, List.mem_append, List.mem_singleton, or_comm]

theorem loadEntries_iff {provider : DetectorMappingCatalogProvider}
    {entries : List DetectorMappingCatalogEntry} {s : Manifests} {detectors : List String}
    (hs : Registered s detectors)
    (hnodup : (entries.map DetectorMappingCatalogEntry.detector).Nodup) :
    (∃ s', entries.foldlM (loadEntry fs provider) s = .ok s') ↔
      ∀ entry ∈ entries, entry.detector ∉ detectors ∧ ReadsManifest fs provider entry := by
  induction entries generalizing s detectors with
  | nil => exact ⟨by simp, fun _ => ⟨s, rfl⟩⟩
  | cons entry entries ih =>
    rw [List.map_cons, List.nodup_cons] at hnodup
    have hfresh : ∀ e ∈ entries, e.detector ≠ entry.detector := by
      intro e he heq
      exact hnodup.1 (heq ▸ List.mem_map_of_mem he)
    have hrest (t : Manifests) (ht : Registered t (detectors ++ [entry.detector])) :
        (∃ s', entries.foldlM (loadEntry fs provider) t = .ok s') ↔
          ∀ e ∈ entries, e.detector ∉ detectors ∧ ReadsManifest fs provider e := by
      rw [ih ht hnodup.2]
      refine forall₂_congr ?_
      intro e he
      simp [hfresh e he]
    rw [List.forall_mem_cons]
    constructor
    · intro hh
      obtain ⟨s', h⟩ := hh
      obtain ⟨t, ht, h⟩ := foldlM_cons_ok.mp h
      exact ⟨(loadEntry_iff hs).mp ⟨t, ht⟩, (hrest t (hs.entry ht)).mp ⟨s', h⟩⟩
    · intro hh
      obtain ⟨hentry, hentries⟩ := hh
      obtain ⟨t, ht⟩ := (loadEntry_iff hs).mpr hentry
      obtain ⟨s', h⟩ := (hrest t (hs.entry ht)).mpr hentries
      exact ⟨s', foldlM_cons_ok.mpr ⟨t, ht, h⟩⟩

theorem Registered.entries {provider : DetectorMappingCatalogProvider}
    {entries : List DetectorMappingCatalogEntry} {s s' : Manifests} {detectors : List String}
    (hs : Registered s detectors) (h : entries.foldlM (loadEntry fs provider) s = .ok s') :
    Registered s' (detectors ++ entries.map DetectorMappingCatalogEntry.detector) := by
  refine foldlM_invariant (I := fun entries s' =>
    Registered s' (detectors ++ entries.map DetectorMappingCatalogEntry.detector)) ?_ ?_ h
  · simpa using hs
  · intro pre entry post t t' _ ht hload
    rw [List.map_append, ← List.append_assoc]
    exact ht.entry hload

/-- The catalogs are valid, and their detectors are registered once each. -/
structure CatalogsLoaded (fs : FileSystem) (providers : List DetectorMappingCatalogProvider)
    (s : Manifests) : Prop where
  valid : CatalogsValid fs providers
  nodup : (s.detectorManifests.map DetectorManifest.detector).Nodup
  keys : ∀ d, d ∈ s.detectorProviders.keys ↔ d ∈ s.detectorManifests.map DetectorManifest.detector
  listed : ∀ d, d ∈ s.detectorManifests.map DetectorManifest.detector ↔ ∃ provider ∈ providers,
    ∃ entry, CatalogLists fs (catalogPath provider).string entry ∧ entry.detector = d

theorem catalogsLoaded_nil : CatalogsLoaded fs [] {} where
  valid := ⟨by simp, by simp, .nil⟩
  nodup := .nil
  keys := by simp [OrderedMap.keys]
  listed := by simp

theorem CatalogsLoaded.loadCatalog_iff {provider : DetectorMappingCatalogProvider} {s : Manifests}
    (h : CatalogsLoaded fs providers s) :
    (∃ s', loadCatalog fs s provider = .ok s') ↔ CatalogsValid fs (providers ++ [provider]) := by
  have hs : Registered s (s.detectorManifests.map DetectorManifest.detector) := ⟨rfl, h.keys⟩
  constructor
  · intro hh
    obtain ⟨s', hload⟩ := hh
    obtain ⟨entries, hentries, hload⟩ := bind_eq_ok.mp hload
    have hmem := mem_loadDetectorMappingCatalog hentries
    have hall := (loadEntries_iff hs (loadDetectorMappingCatalog_nodup hentries).1).mp ⟨s', hload⟩
    refine ⟨?_, ?_, List.pairwise_append.mpr
      ⟨h.valid.different, List.pairwise_singleton _ _, ?_⟩⟩
    · exact forall_mem_concat.mpr ⟨h.valid.catalogs, entries, hentries⟩
    · refine forall_mem_concat.mpr ⟨h.valid.manifests, fun entry hentry => ?_⟩
      exact (hall entry ((hmem entry).mpr hentry)).2
    · intro p hp q hq e f he hf heq
      rw [List.mem_singleton.mp hq] at hf
      exact (hall f ((hmem f).mpr hf)).1 ((h.listed f.detector).mpr ⟨p, hp, e, he, heq⟩)
  · intro hvalid
    obtain ⟨entries, hentries⟩ := hvalid.catalogs provider (by simp)
    have hmem := mem_loadDetectorMappingCatalog hentries
    have hall : ∀ entry ∈ entries,
        entry.detector ∉ s.detectorManifests.map DetectorManifest.detector ∧
          ReadsManifest fs provider entry := by
      intro entry hentry
      have hlists := (hmem entry).mp hentry
      refine ⟨?_, hvalid.manifests provider (by simp) entry hlists⟩
      intro hused
      obtain ⟨p, hp, e, he, heq⟩ := (h.listed entry.detector).mp hused
      have hdifferent := (List.pairwise_append.mp hvalid.different).2.2 p hp provider (by simp)
      exact hdifferent e entry he hlists heq
    obtain ⟨s', hs'⟩ :=
      (loadEntries_iff hs (loadDetectorMappingCatalog_nodup hentries).1).mpr hall
    exact ⟨s', bind_eq_ok.mpr ⟨entries, hentries, hs'⟩⟩

theorem CatalogsLoaded.append {provider : DetectorMappingCatalogProvider} {s s' : Manifests}
    (h : CatalogsLoaded fs providers s) (hload : loadCatalog fs s provider = .ok s') :
    CatalogsLoaded fs (providers ++ [provider]) s' := by
  have hs : Registered s (s.detectorManifests.map DetectorManifest.detector) := ⟨rfl, h.keys⟩
  have hvalid := h.loadCatalog_iff.mp ⟨s', hload⟩
  obtain ⟨entries, hentries, hload⟩ := bind_eq_ok.mp hload
  have hnodup := (loadDetectorMappingCatalog_nodup hentries).1
  have hmem := mem_loadDetectorMappingCatalog hentries
  have hall := (loadEntries_iff hs hnodup).mp ⟨s', hload⟩
  obtain ⟨hdetectors, hkeys⟩ := hs.entries hload
  refine ⟨hvalid, ?_, hdetectors ▸ hkeys, ?_⟩
  · rw [hdetectors, List.nodup_append]
    refine ⟨h.nodup, hnodup, ?_⟩
    intro a ha b hb heq
    obtain ⟨entry, hentry, rfl⟩ := List.mem_map.mp hb
    exact (hall entry hentry).1 (heq ▸ ha)
  · intro d
    rw [hdetectors, List.mem_append, h.listed, exists_mem_concat, List.mem_map]
    simp only [hmem]

theorem loadCatalogs_loaded {s : Manifests}
    (h : providers.foldlM (loadCatalog fs) {} = .ok s) : CatalogsLoaded fs providers s := by
  refine foldlM_invariant (I := CatalogsLoaded fs) catalogsLoaded_nil ?_ h
  intro pre provider post t t' _ ht hload
  exact ht.append hload

theorem CatalogsValid.of_append {before after : List DetectorMappingCatalogProvider}
    (h : CatalogsValid fs (before ++ after)) : CatalogsValid fs before where
  catalogs p hp := h.catalogs p (by simp [hp])
  manifests p hp := h.manifests p (by simp [hp])
  different := (List.pairwise_append.mp h.different).1

theorem exists_loadCatalogs (h : CatalogsValid fs providers) :
    ∃ s, providers.foldlM (loadCatalog fs) {} = .ok s := by
  have htotal : ∃ s, providers.foldlM (loadCatalog fs) {} = .ok s ∧
      CatalogsLoaded fs providers s := by
    refine foldlM_total catalogsLoaded_nil ?_
    intro pre provider post t hsplit ht
    have hpre : CatalogsValid fs (pre ++ [provider]) := by
      rw [hsplit, List.append_cons] at h
      exact h.of_append
    obtain ⟨t', ht'⟩ := ht.loadCatalog_iff.mpr hpre
    exact ⟨t', ht', ht.append ht'⟩
  obtain ⟨s, hs, -⟩ := htotal
  exact ⟨s, hs⟩

end Catalogs

section RunRanges

variable {fs : FileSystem} {manifests : List DetectorManifest}

theorem sharing_empty : Sharing fs {} := ⟨by simp, by simp, by simp⟩

theorem exists_tableOf {files : List MappingFile} {s : Building}
    (h : ∃ table, loadMappingFiles fs files = .ok table) : ∃ r, tableOf fs files s = .ok r := by
  obtain ⟨table, htable⟩ := h
  rw [tableOf]
  cases s.tables.find files with
  | some known => exact ⟨_, rfl⟩
  | none => exact ⟨_, bind_eq_ok.mpr ⟨table, htable, rfl⟩⟩

/-- The tables of all segments can be loaded, whether or not one is shared with another segment. -/
theorem runRanges_iff {cuts : List UInt64} (hcuts : cuts.Pairwise (· < ·)) :
    (∃ s, (segments cuts).foldlM (addRunRange fs manifests) {} = .ok s) ↔
      ∀ segment ∈ segments cuts, ∃ files, selectMappingFiles fs manifests segment.1 = .ok files ∧
        ∃ table, loadMappingFiles fs files = .ok table := by
  constructor
  · intro hh segment hsegment
    obtain ⟨s, h⟩ := hh
    have hbuilt := built_of_foldlM hcuts h
    obtain ⟨files, hfiles, hknown⟩ := hbuilt.known segment hsegment
    refine ⟨files, hfiles, ?_⟩
    by_cases hnil : files = []
    · exact ⟨{}, hnil ▸ rfl⟩
    · obtain ⟨table, htable⟩ := hknown hnil
      exact ⟨table.table, hbuilt.sharing.loads files table htable⟩
  · intro hall
    have htotal : ∃ s, (segments cuts).foldlM (addRunRange fs manifests) {} = .ok s ∧
        Sharing fs s := by
      refine foldlM_total (I := fun _ s => Sharing fs s) sharing_empty ?_
      intro pre segment post s hsplit hs
      obtain ⟨files, hfiles, hload⟩ := hall segment (by simp [hsplit])
      rw [addRunRange, hfiles, bind_ok]
      by_cases hnil : files = []
      · rw [if_pos hnil]
        exact ⟨s, rfl, hs⟩
      · obtain ⟨⟨table, s'⟩, htable⟩ := exists_tableOf (s := s) hload
        have hs' := (tableOf_eq_ok htable hs).1
        rw [if_neg hnil, htable, bind_ok]
        exact ⟨_, rfl, hs'.loads, hs'.fresh, hs'.distinct⟩
    obtain ⟨s, hs, -⟩ := htotal
    exact ⟨s, hs⟩

end RunRanges

section Runs

variable {fs : FileSystem} {providers : List DetectorMappingCatalogProvider}

/-- The manifest of the detector has a range for the mapping file. -/
def Names (fs : FileSystem) (providers : List DetectorMappingCatalogProvider) (x : Selection) :
    Prop :=
  ∃ provider ∈ providers, ∃ entry, CatalogLists fs (catalogPath provider).string entry ∧
    entry.detector = x.detector ∧ ∃ manifestPath,
      resolveOwnedPath fs ⟨provider.directory⟩ ⟨entry.manifestFile⟩ "Detector manifest" =
        .ok manifestPath ∧
      manifestPath.parentPath = x.directory ∧
      ∃ range, ManifestLists fs manifestPath.string range ∧ range.mappingFile = x.mappingFile

/-- The mapping file is in the directory of the manifest, and can be loaded for the detector. -/
def Selection.Reads (fs : FileSystem) (x : Selection) : Prop :=
  ∃ path, resolveOwnedPath fs x.directory ⟨x.mappingFile⟩ "Mapping file" = .ok path ∧
    LoadsAlone fs ⟨x.detector, path.string⟩

def Selection.Shares (fs : FileSystem) (x y : Selection) : Prop :=
  ∃ daq a b, x.Gives fs daq a ∧ y.Gives fs daq b

/-- What the service checks of its configuration. -/
structure Valid (fs : FileSystem) (providers : List DetectorMappingCatalogProvider) : Prop
    extends CatalogsValid fs providers where
  mappingFiles : ∀ x, Names fs providers x → x.Reads fs
  apart : ∀ runNumber x y, Selects fs providers runNumber x → Selects fs providers runNumber y →
    x ≠ y → ¬ x.Shares fs y

theorem Names.of_selects {runNumber : UInt64} {x : Selection}
    (h : Selects fs providers runNumber x) : Names fs providers x := by
  obtain ⟨provider, hprovider, entry, hentry, hdetector, path, hpath, hdirectory, range, hrange,
    hfile, -⟩ := h
  exact ⟨provider, hprovider, entry, hentry, hdetector, path, hpath, hdirectory, range, hrange,
    hfile⟩

theorem CatalogsValid.exists_selects (h : CatalogsValid fs providers) {x : Selection}
    (hx : Names fs providers x) : ∃ runNumber, Selects fs providers runNumber x := by
  obtain ⟨provider, hprovider, entry, hentry, hdetector, path, hpath, hdirectory, range, hrange,
    hfile⟩ := hx
  obtain ⟨path', ranges, hpath', hranges⟩ := h.manifests provider hprovider entry hentry
  obtain rfl := Except.ok.inj (hpath.symm.trans hpath')
  obtain ⟨hmem, hincreasing⟩ := loadDetectorMappingManifest_eq_ok hranges
  have hle := hincreasing.nonempty range ((hmem range).mpr hrange)
  exact ⟨range.runMin, provider, hprovider, entry, hentry, hdetector, path, hpath, hdirectory,
    range, hrange, hfile, le_rfl, hle⟩

theorem CatalogsValid.exists_names (h : CatalogsValid fs providers) (hne : providers ≠ []) :
    ∃ x, Names fs providers x := by
  obtain ⟨provider, hprovider⟩ := List.exists_mem_of_ne_nil providers hne
  obtain ⟨entries, hentries⟩ := h.catalogs provider hprovider
  obtain ⟨entry, hentry⟩ :=
    List.exists_mem_of_ne_nil entries (loadDetectorMappingCatalog_nodup hentries).2
  have hlists := (mem_loadDetectorMappingCatalog hentries entry).mp hentry
  obtain ⟨path, ranges, hpath, hranges⟩ := h.manifests provider hprovider entry hlists
  obtain ⟨range, hrange⟩ :=
    List.exists_mem_of_ne_nil ranges (loadDetectorMappingManifest_ne_nil hranges)
  exact ⟨⟨entry.detector, path.parentPath, range.mappingFile⟩, provider, hprovider, entry, hlists,
    rfl, path, hpath, rfl, range, ((loadDetectorMappingManifest_eq_ok hranges).1 range).mp hrange,
    rfl⟩

theorem apart_iff_not_shares {x y : Selection} {p q : Path}
    (hp : resolveOwnedPath fs x.directory ⟨x.mappingFile⟩ "Mapping file" = .ok p)
    (hq : resolveOwnedPath fs y.directory ⟨y.mappingFile⟩ "Mapping file" = .ok q) :
    Apart fs ⟨x.detector, p.string⟩ ⟨y.detector, q.string⟩ ↔ ¬ x.Shares fs y := by
  constructor
  · intro hapart hshares
    obtain ⟨daq, a, b, ⟨p', hp', ha⟩, ⟨q', hq', hb⟩⟩ := hshares
    obtain rfl := Except.ok.inj (hp.symm.trans hp')
    obtain rfl := Except.ok.inj (hq.symm.trans hq')
    exact hapart daq a b ha hb
  · intro hshares daq a b ha hb
    exact hshares ⟨daq, a, b, ⟨p, hp, ha⟩, ⟨q, hq, hb⟩⟩

section Segment

variable {c : Configuration} {s : Manifests} {segment : UInt64 × UInt64} {files : List MappingFile}

theorem selects_unique (hs : c.providers.foldlM (loadCatalog fs) {} = .ok s) {runNumber : UInt64}
    {x y : Selection} (hx : Selects fs c.providers runNumber x)
    (hy : Selects fs c.providers runNumber y) (hdetector : x.detector = y.detector) : x = y := by
  obtain ⟨m, range, hm, rfl⟩ := (selects_iff hs runNumber x).mp hx
  obtain ⟨m', range', hm', rfl⟩ := (selects_iff hs runNumber y).mp hy
  have hsame : m = m' :=
    List.inj_on_of_nodup_map (loadCatalogs_loaded hs).nodup hm.manifest_mem hm'.manifest_mem hdetector
  subst hsame
  have hinc := allIncreasing_of_loadCatalogs hs
  have hfind := (findRange_eq_some_iff hinc hm.manifest_mem).mpr ⟨hm.range_mem, hm.le_run, hm.run_le⟩
  have hfind' := (findRange_eq_some_iff hinc hm'.manifest_mem).mpr
    ⟨hm'.range_mem, hm'.le_run, hm'.run_le⟩
  obtain rfl := Option.some.inj (hfind.symm.trans hfind')
  rfl

theorem exists_segment_of_selects (hs : c.providers.foldlM (loadCatalog fs) {} = .ok s)
    {runNumber : UInt64} {x : Selection} (hx : Selects fs c.providers runNumber x) :
    ∃ segment ∈ segments s.boundaries.keys, segment.1 ≤ runNumber ∧ runNumber ≤ segment.2 := by
  obtain ⟨m, range, hm, -⟩ := (selects_iff hs runNumber x).mp hx
  have hcut := (loadCatalogs_eq_ok hs).cut m hm.manifest_mem range hm.range_mem _ (.inl rfl)
  exact exists_segment hcut hm.le_run s.boundaries.keys_sorted

theorem selects_segment_iff (hs : c.providers.foldlM (loadCatalog fs) {} = .ok s)
    (hsegment : segment ∈ segments s.boundaries.keys) {runNumber : UInt64}
    (hrun : segment.1 ≤ runNumber ∧ runNumber ≤ segment.2) (x : Selection) :
    Selects fs c.providers runNumber x ↔ Selects fs c.providers segment.1 x := by
  rw [selects_iff hs, selects_iff hs]
  simp only [active_segment_iff (loadCatalogs_eq_ok hs).cut hsegment hrun]

theorem exists_file_of_selects (hs : c.providers.foldlM (loadCatalog fs) {} = .ok s)
    (hfiles : selectMappingFiles fs s.detectorManifests segment.1 = .ok files) {x : Selection}
    (hx : Selects fs c.providers segment.1 x) : ∃ path,
      resolveOwnedPath fs x.directory ⟨x.mappingFile⟩ "Mapping file" = .ok path ∧
        ⟨x.detector, path.string⟩ ∈ files := by
  obtain ⟨m, range, hm, rfl⟩ := (selects_iff hs _ x).mp hx
  exact (selectMappingFiles_eq_ok (allIncreasing_of_loadCatalogs hs) hfiles).listed m range hm

theorem exists_selects_of_file (hs : c.providers.foldlM (loadCatalog fs) {} = .ok s)
    (hfiles : selectMappingFiles fs s.detectorManifests segment.1 = .ok files) {file : MappingFile}
    (hfile : file ∈ files) : ∃ x path, Selects fs c.providers segment.1 x ∧
      resolveOwnedPath fs x.directory ⟨x.mappingFile⟩ "Mapping file" = .ok path ∧
        file = ⟨x.detector, path.string⟩ := by
  have hof := selectMappingFiles_eq_ok (allIncreasing_of_loadCatalogs hs) hfiles
  obtain ⟨m, range, hm, path, hpath, rfl⟩ := hof.active file hfile
  exact ⟨⟨m.detector, m.directory, range.mappingFile⟩, path,
    (selects_iff hs _ _).mpr ⟨m, range, hm, rfl⟩, hpath, rfl⟩

theorem segment_loads (hs : c.providers.foldlM (loadCatalog fs) {} = .ok s)
    (hvalid : Valid fs c.providers) : ∃ files,
      selectMappingFiles fs s.detectorManifests segment.1 = .ok files ∧
        ∃ table, loadMappingFiles fs files = .ok table := by
  have hreads (x : Selection) (hx : Selects fs c.providers segment.1 x) : x.Reads fs :=
    hvalid.mappingFiles x (.of_selects hx)
  have hselect : ∃ files, selectMappingFiles fs s.detectorManifests segment.1 = .ok files := by
    refine exists_selectMappingFiles (allIncreasing_of_loadCatalogs hs) ?_
    intro m range hm
    obtain ⟨path, hpath, -⟩ := hreads _ ((selects_iff hs _ _).mpr ⟨m, range, hm, rfl⟩)
    exact ⟨path, hpath⟩
  obtain ⟨files, hfiles⟩ := hselect
  refine ⟨files, hfiles, loadMappingFiles_iff.mpr ⟨?_, ?_⟩⟩
  · intro file hfile
    obtain ⟨x, path, hx, hpath, rfl⟩ := exists_selects_of_file hs hfiles hfile
    obtain ⟨path', hpath', hloads⟩ := hreads x hx
    obtain rfl := Except.ok.inj (hpath.symm.trans hpath')
    exact hloads
  · have hnodup := (selectMappingFiles_sublist hfiles).nodup (loadCatalogs_loaded hs).nodup
    refine (List.pairwise_map.mp hnodup).imp_of_mem ?_
    intro f g hf hg hne
    obtain ⟨x, p, hx, hp, rfl⟩ := exists_selects_of_file hs hfiles hf
    obtain ⟨y, q, hy, hq, rfl⟩ := exists_selects_of_file hs hfiles hg
    refine (apart_iff_not_shares hp hq).mpr (hvalid.apart segment.1 x y hx hy ?_)
    intro heq
    exact hne (by rw [heq])

theorem reads_of_segments (hs : c.providers.foldlM (loadCatalog fs) {} = .ok s)
    (hall : ∀ segment ∈ segments s.boundaries.keys, ∃ files,
      selectMappingFiles fs s.detectorManifests segment.1 = .ok files ∧
        ∃ table, loadMappingFiles fs files = .ok table) {x : Selection}
    (hx : Names fs c.providers x) : x.Reads fs := by
  obtain ⟨runNumber, hrun⟩ := (loadCatalogs_loaded hs).valid.exists_selects hx
  obtain ⟨segment, hsegment, hcontains⟩ := exists_segment_of_selects hs hrun
  obtain ⟨files, hfiles, hload⟩ := hall segment hsegment
  have hstart := (selects_segment_iff hs hsegment hcontains x).mp hrun
  obtain ⟨path, hpath, hfile⟩ := exists_file_of_selects hs hfiles hstart
  exact ⟨path, hpath, (loadMappingFiles_iff.mp hload).1 _ hfile⟩

theorem apart_of_segments (hs : c.providers.foldlM (loadCatalog fs) {} = .ok s)
    (hall : ∀ segment ∈ segments s.boundaries.keys, ∃ files,
      selectMappingFiles fs s.detectorManifests segment.1 = .ok files ∧
        ∃ table, loadMappingFiles fs files = .ok table) {runNumber : UInt64} {x y : Selection}
    (hx : Selects fs c.providers runNumber x) (hy : Selects fs c.providers runNumber y)
    (hne : x ≠ y) : ¬ x.Shares fs y := by
  obtain ⟨segment, hsegment, hcontains⟩ := exists_segment_of_selects hs hx
  obtain ⟨files, hfiles, hload⟩ := hall segment hsegment
  have hiff := selects_segment_iff hs hsegment hcontains
  obtain ⟨p, hp, hpfile⟩ := exists_file_of_selects hs hfiles ((hiff x).mp hx)
  obtain ⟨q, hq, hqfile⟩ := exists_file_of_selects hs hfiles ((hiff y).mp hy)
  have hdifferent : (⟨x.detector, p.string⟩ : MappingFile) ≠ ⟨y.detector, q.string⟩ := by
    intro heq
    exact hne (selects_unique hs hx hy (congrArg MappingFile.detector heq))
  have hapart := (loadMappingFiles_iff.mp hload).2.forall hpfile hqfile hdifferent
  exact (apart_iff_not_shares hp hq).mp hapart

/-- Some run has a table: each catalog has a detector, and its manifest has a range. -/
theorem runTables_ne_nil (hproviders : c.providers ≠ []) {built : Building}
    (hs : c.providers.foldlM (loadCatalog fs) {} = .ok s)
    (hbuilt : (segments s.boundaries.keys).foldlM (addRunRange fs s.detectorManifests) {} =
      .ok built) : built.runTables ≠ [] := by
  have hvalid := (loadCatalogs_loaded hs).valid
  obtain ⟨x, hx⟩ := hvalid.exists_names hproviders
  obtain ⟨runNumber, hrun⟩ := hvalid.exists_selects hx
  have hcovers := covers_iff_selects hs (built_of_foldlM s.boundaries.keys_sorted hbuilt) runNumber
  obtain ⟨table, t, ht, -⟩ := hcovers.mpr ⟨x, hrun⟩
  exact List.ne_nil_of_mem ht

theorem loadTables_of_valid (hproviders : c.providers ≠ []) (h : Valid fs c.providers) :
    ∃ runTables, loadTables fs c = .ok runTables := by
  obtain ⟨s, hs⟩ := exists_loadCatalogs h.toCatalogsValid
  obtain ⟨built, hbuilt⟩ :=
    (runRanges_iff s.boundaries.keys_sorted).mpr fun _ _ => segment_loads hs h
  have hne := runTables_ne_nil hproviders hs hbuilt
  refine ⟨built.runTables, ?_⟩
  rw [loadTables, if_neg hproviders, hs, bind_ok, hbuilt, bind_ok, if_neg hne]

theorem valid_of_loadTables (hproviders : c.providers ≠ []) {runTables : List RunRangeTable}
    (h : loadTables fs c = .ok runTables) : Valid fs c.providers := by
  rw [loadTables, if_neg hproviders] at h
  obtain ⟨s, hs, h⟩ := bind_eq_ok.mp h
  obtain ⟨built, hbuilt, -⟩ := bind_eq_ok.mp h
  have hall := (runRanges_iff s.boundaries.keys_sorted).mp ⟨built, hbuilt⟩
  exact
    { (loadCatalogs_loaded hs).valid with
      mappingFiles := fun x hx => reads_of_segments hs hall hx
      apart := fun runNumber x y hx hy hne => apart_of_segments hs hall hx hy hne }

end Segment

/-- A configuration is loaded exactly if it is valid. A run for which it has no table then has
no range, and the check that there is a run table at all never fails. -/
theorem loadTables_iff_valid (fs : FileSystem) (c : Configuration) (hproviders : c.providers ≠ []) :
    ((∃ runTables, loadTables fs c = .ok runTables) ↔ Valid fs c.providers) ∧
      (∀ runTables, loadTables fs c = .ok runTables → ∀ earlier runNumber,
        (∃ message, (Service.getTable fs (Service.afterCalls fs { configuration := c } earlier)
          runNumber).1 = .error message) ↔ ∀ x, ¬ Selects fs c.providers runNumber x) ∧
      (CatalogsValid fs c.providers → (∀ x, Names fs c.providers x → x.Reads fs) →
        (∀ x y, x ≠ y → x.Shares fs y → ∀ runNumber, ¬ (Selects fs c.providers runNumber x ∧
          Selects fs c.providers runNumber y)) →
        ∃ runTables, loadTables fs c = .ok runTables) ∧
      (∀ runNumber x y, Selects fs c.providers runNumber x → Selects fs c.providers runNumber y →
        x ≠ y → x.Shares fs y → ∃ message, loadTables fs c = .error message) ∧
      ∀ s built, c.providers.foldlM (loadCatalog fs) {} = .ok s →
        (segments s.boundaries.keys).foldlM (addRunRange fs s.detectorManifests) {} = .ok built →
        built.runTables ≠ [] := by
  refine ⟨⟨?_, loadTables_of_valid hproviders⟩, ?_, ?_, ?_, ?_⟩
  · intro hh
    obtain ⟨runTables, h⟩ := hh
    exact valid_of_loadTables hproviders h
  · intro runTables h earlier runNumber
    obtain ⟨hordered, hselected, -⟩ := loadTables_eq_ok hproviders h
    have hfound := (findRunTable_isSome_iff hordered).trans (hselected runNumber)
    rw [getTable_afterCalls h, answer, ← not_exists, ← hfound]
    cases findRunTable runTables runNumber <;> simp
  · intro hcatalogs hreads hshares
    refine loadTables_of_valid hproviders { hcatalogs with mappingFiles := hreads, apart := ?_ }
    intro runNumber x y hx hy hne hshare
    exact hshares x y hne hshare runNumber ⟨hx, hy⟩
  · intro runNumber x y hx hy hne hshare
    cases h : loadTables fs c with
    | error message => exact ⟨message, rfl⟩
    | ok runTables =>
      have hvalid := valid_of_loadTables hproviders h
      exact absurd hshare (hvalid.apart runNumber x y hx hy hne)
  · intro s built hs hbuilt
    exact runTables_ne_nil hproviders hs hbuilt

/-- Two detectors that have the same DAQ address, one after the other. -/
def handover : FileSystem where
  read path :=
    if path = "/maps/manifest.map" then some ⟨"BCAL bcal/manifest.map\nHMS hms/manifest.map\n", true⟩
    else if path = "/maps/bcal/manifest.map" then some ⟨"1 4 bcal.map\n", true⟩
    else if path = "/maps/hms/manifest.map" then some ⟨"5 max hms.map\n", true⟩
    else if path = "/maps/bcal/bcal.map" then
      some ⟨"detector BCAL\nfields module end\n2 4 none 7 -1\n", true⟩
    else if path = "/maps/hms/hms.map" then some ⟨"detector HMS\nfields bar\n2 4 none 3\n", true⟩
    else none
  weaklyCanonical path := .ok path

theorem loadTables_iff_valid_handover :
    Valid handover [⟨"TRANSLATION:DIRECTORY", "/maps"⟩] :=
  (loadTables_iff_valid handover ⟨"/maps", [], []⟩ (by decide +kernel)).1.mp
    ⟨[⟨1, 4, ⟨0, ⟨OrderedMap.insert ∅ ⟨2, 4, 0xFFFFFFFF⟩ ⟨"BCAL", [("module", 7), ("end", -1)]⟩⟩⟩⟩,
      ⟨5, maxValue, ⟨1, ⟨OrderedMap.insert ∅ ⟨2, 4, 0xFFFFFFFF⟩ ⟨"HMS", [("bar", 3)]⟩⟩⟩⟩],
      by decide +kernel⟩

end Runs

end TranslationService

end JanaExtensions
