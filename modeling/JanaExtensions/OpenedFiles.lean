import JanaExtensions.ConfinedPaths
import JanaExtensions.EagerValidation

/-! The files that the service opens while it loads its tables, one after the other up to the
failure if there is one, and the directories that they are in. -/

namespace JanaExtensions.TranslationService

open Failing IntervalTable

inductive OpenedFile
  | catalog (path : String)
  | manifest (provider : DetectorMappingCatalogProvider) (entry : DetectorMappingCatalogEntry)
      (path : String)
  | mapping (file : MappingFile)
  deriving DecidableEq, Repr

def OpenedFile.path : OpenedFile → String
  | catalog path => path
  | manifest _ _ path => path
  | mapping file => file.path

def openedByEntry (fs : FileSystem) (provider : DetectorMappingCatalogProvider) (s : Manifests)
    (entry : DetectorMappingCatalogEntry) : List OpenedFile :=
  match s.detectorProviders.find entry.detector with
  | some _ => []
  | none =>
    ifOk (resolveOwnedPath fs ⟨provider.directory⟩ ⟨entry.manifestFile⟩ "Detector manifest")
      fun manifestPath => [.manifest provider entry manifestPath.string]

def openedByCatalog (fs : FileSystem) (s : Manifests) (provider : DetectorMappingCatalogProvider) :
    List OpenedFile :=
  .catalog (catalogPath provider).string ::
    ifOk (loadDetectorMappingCatalog fs (catalogPath provider).string) fun catalog =>
      trail (loadEntry fs provider) (openedByEntry fs provider) s catalog

def openedByMappingFiles (fs : FileSystem) (mappingFiles : List MappingFile) : List OpenedFile :=
  trail (fun table file => TranslationTable.loadMappingFile fs table file.path file.detector)
    (fun _ file => [.mapping file]) {} mappingFiles

/-- The mapping files are opened behind the resolution of all their paths, unless the table of
these files is known. -/
def openedByRunRange (fs : FileSystem) (manifests : List DetectorManifest) (s : Building)
    (segment : UInt64 × UInt64) : List OpenedFile :=
  ifOk (selectMappingFiles fs manifests segment.1) fun mappingFiles =>
    if mappingFiles = [] then []
    else
      match s.tables.find mappingFiles with
      | some _ => []
      | none => openedByMappingFiles fs mappingFiles

def openedByLoadTables (fs : FileSystem) (c : Configuration) : List OpenedFile :=
  if c.providers = [] then []
  else
    trail (loadCatalog fs) (openedByCatalog fs) {} c.providers ++
      ifOk (c.providers.foldlM (loadCatalog fs) {}) fun manifests =>
        trail (addRunRange fs manifests.detectorManifests)
          (openedByRunRange fs manifests.detectorManifests) {} (segments manifests.boundaries.keys)

section Reads

variable {fs fs' : FileSystem}

def ReadsAlike (fs fs' : FileSystem) (file : OpenedFile) : Prop :=
  fs'.read file.path = fs.read file.path

theorem resolveOwnedPath_congr (hcanonical : fs'.weaklyCanonical = fs.weaklyCanonical)
    (directory referencedPath : Path) (description : String) :
    resolveOwnedPath fs' directory referencedPath description =
      resolveOwnedPath fs directory referencedPath description := by
  rw [resolveOwnedPath, resolveOwnedPath, hcanonical]

theorem loadEntry_congr (hcanonical : fs'.weaklyCanonical = fs.weaklyCanonical)
    {provider : DetectorMappingCatalogProvider} {s : Manifests}
    {entry : DetectorMappingCatalogEntry}
    (h : ∀ file ∈ openedByEntry fs provider s entry, ReadsAlike fs fs' file) :
    loadEntry fs' provider s entry = loadEntry fs provider s entry := by
  rw [openedByEntry] at h
  rw [loadEntry, loadEntry, resolveOwnedPath_congr hcanonical]
  cases hfind : s.detectorProviders.find entry.detector with
  | some existing => rfl
  | none =>
    rw [hfind] at h
    cases hpath : resolveOwnedPath fs ⟨provider.directory⟩ ⟨entry.manifestFile⟩
        "Detector manifest" with
    | error message => rfl
    | ok manifestPath =>
      have hread : fs'.read manifestPath.string = fs.read manifestPath.string :=
        h (.manifest provider entry manifestPath.string) (by simp [hpath, ifOk])
      simp only [bind_ok, loadDetectorMappingManifest, hread]

theorem loadCatalog_congr (hcanonical : fs'.weaklyCanonical = fs.weaklyCanonical)
    {provider : DetectorMappingCatalogProvider} {s : Manifests}
    (h : ∀ file ∈ openedByCatalog fs s provider, ReadsAlike fs fs' file) :
    loadCatalog fs' s provider = loadCatalog fs s provider := by
  obtain ⟨hcatalog, hentries⟩ := List.forall_mem_cons.mp h
  have hread : fs'.read (catalogPath provider).string = fs.read (catalogPath provider).string :=
    hcatalog
  have hsame : loadDetectorMappingCatalog fs' (catalogPath provider).string =
      loadDetectorMappingCatalog fs (catalogPath provider).string := by
    rw [loadDetectorMappingCatalog, loadDetectorMappingCatalog, hread]
  rw [loadCatalog, loadCatalog, hsame]
  cases hload : loadDetectorMappingCatalog fs (catalogPath provider).string with
  | error message => rfl
  | ok catalog =>
    rw [hload] at hentries
    exact foldlM_eq_of_trail (fun t entry => loadEntry_congr hcanonical) hentries

theorem loadMappingFiles_congr {files : List MappingFile}
    (h : ∀ file ∈ openedByMappingFiles fs files, ReadsAlike fs fs' file) :
    loadMappingFiles fs' files = loadMappingFiles fs files := by
  refine foldlM_eq_of_trail ?_ h
  intro table file hfile
  have hread : fs'.read file.path = fs.read file.path :=
    hfile (.mapping file) (List.mem_singleton_self _)
  rw [TranslationTable.loadMappingFile, TranslationTable.loadMappingFile, hread]

theorem selectMappingFiles_congr (hcanonical : fs'.weaklyCanonical = fs.weaklyCanonical)
    (manifests : List DetectorManifest) (runMin : UInt64) :
    selectMappingFiles fs' manifests runMin = selectMappingFiles fs manifests runMin := by
  refine foldlM_congr ?_
  intro files manifest _
  rw [addMappingFile, addMappingFile]
  simp only [resolveOwnedPath_congr hcanonical]

theorem addRunRange_congr (hcanonical : fs'.weaklyCanonical = fs.weaklyCanonical)
    {manifests : List DetectorManifest} {s : Building} {segment : UInt64 × UInt64}
    (h : ∀ file ∈ openedByRunRange fs manifests s segment, ReadsAlike fs fs' file) :
    addRunRange fs' manifests s segment = addRunRange fs manifests s segment := by
  rw [openedByRunRange] at h
  rw [addRunRange, addRunRange, selectMappingFiles_congr hcanonical]
  cases hfiles : selectMappingFiles fs manifests segment.1 with
  | error message => rfl
  | ok files =>
    simp only [hfiles, ifOk] at h
    rw [bind_ok, bind_ok]
    by_cases hnil : files = []
    · rw [if_pos hnil, if_pos hnil]
    · rw [if_neg hnil] at h
      have htable : tableOf fs' files s = tableOf fs files s := by
        rw [tableOf, tableOf]
        cases hfind : s.tables.find files with
        | some known => rfl
        | none =>
          rw [hfind] at h
          rw [loadMappingFiles_congr h]
      rw [htable]

/-- The service reads no other files: it does not matter what is in them. -/
theorem loadTables_congr (hcanonical : fs'.weaklyCanonical = fs.weaklyCanonical)
    {c : Configuration} (h : ∀ file ∈ openedByLoadTables fs c, ReadsAlike fs fs' file) :
    loadTables fs' c = loadTables fs c := by
  rw [openedByLoadTables] at h
  rw [loadTables, loadTables]
  by_cases hproviders : c.providers = []
  · rw [if_pos hproviders, if_pos hproviders]
  · rw [if_neg hproviders] at h
    rw [if_neg hproviders, if_neg hproviders]
    obtain ⟨hcatalogs, hranges⟩ := List.forall_mem_append.mp h
    have hsame : c.providers.foldlM (loadCatalog fs') {} = c.providers.foldlM (loadCatalog fs) {} :=
      foldlM_eq_of_trail (fun t provider => loadCatalog_congr hcanonical) hcatalogs
    rw [hsame]
    cases hload : c.providers.foldlM (loadCatalog fs) {} with
    | error message => rfl
    | ok manifests =>
      rw [hload] at hranges
      have hbuilt : (segments manifests.boundaries.keys).foldlM
          (addRunRange fs' manifests.detectorManifests) {} =
            (segments manifests.boundaries.keys).foldlM
              (addRunRange fs manifests.detectorManifests) {} :=
        foldlM_eq_of_trail (fun t segment => addRunRange_congr hcanonical) hranges
      rw [bind_ok, bind_ok, hbuilt]

end Reads

section Opened

variable {fs : FileSystem} {c : Configuration} {provider : DetectorMappingCatalogProvider}
  {entry : DetectorMappingCatalogEntry}

theorem mem_openedByEntry {s : Manifests} {file : OpenedFile}
    (h : file ∈ openedByEntry fs provider s entry) : ∃ manifestPath,
      resolveOwnedPath fs ⟨provider.directory⟩ ⟨entry.manifestFile⟩ "Detector manifest" =
        .ok manifestPath ∧ file = .manifest provider entry manifestPath.string := by
  rw [openedByEntry] at h
  split at h
  · cases h
  · obtain ⟨manifestPath, hpath, hfile⟩ := mem_ifOk.mp h
    exact ⟨manifestPath, hpath, List.mem_singleton.mp hfile⟩

theorem mem_openedByCatalog {s : Manifests} {file : OpenedFile}
    (h : file ∈ openedByCatalog fs s provider) :
    file = .catalog (catalogPath provider).string ∨ ∃ entry manifestPath,
      CatalogLists fs (catalogPath provider).string entry ∧
      resolveOwnedPath fs ⟨provider.directory⟩ ⟨entry.manifestFile⟩ "Detector manifest" =
        .ok manifestPath ∧ file = .manifest provider entry manifestPath.string := by
  rcases List.mem_cons.mp h with h | h
  · exact .inl h
  · right
    obtain ⟨catalog, hcatalog, hentries⟩ := mem_ifOk.mp h
    obtain ⟨pre, entry, post, t, rfl, -, hentry⟩ := mem_trail.mp hentries
    obtain ⟨manifestPath, hpath, hfile⟩ := mem_openedByEntry hentry
    have hlists := (mem_loadDetectorMappingCatalog hcatalog entry).mp (by simp)
    exact ⟨entry, manifestPath, hlists, hpath, hfile⟩

theorem mem_openedByRunRange {manifests : List DetectorManifest} {s : Building}
    {segment : UInt64 × UInt64} {file : OpenedFile}
    (h : file ∈ openedByRunRange fs manifests s segment) : ∃ files,
      selectMappingFiles fs manifests segment.1 = .ok files ∧
        ∃ mapping ∈ files, file = .mapping mapping := by
  obtain ⟨files, hfiles, h⟩ := mem_ifOk.mp h
  refine ⟨files, hfiles, ?_⟩
  split at h
  · cases h
  · split at h
    · cases h
    · obtain ⟨pre, mapping, post, t, rfl, -, hmapping⟩ := mem_trail.mp h
      exact ⟨mapping, by simp, List.mem_singleton.mp hmapping⟩

theorem mem_openedByLoadTables {file : OpenedFile} (h : file ∈ openedByLoadTables fs c) :
    (∃ provider ∈ c.providers, ∃ t, file ∈ openedByCatalog fs t provider) ∨
      ∃ s, c.providers.foldlM (loadCatalog fs) {} = .ok s ∧
        ∃ segment t, file ∈ openedByRunRange fs s.detectorManifests t segment := by
  rw [openedByLoadTables] at h
  split at h
  · cases h
  · rcases List.mem_append.mp h with h | h
    · obtain ⟨pre, provider, post, t, hsplit, -, hfile⟩ := mem_trail.mp h
      exact .inl ⟨provider, by simp [hsplit], t, hfile⟩
    · obtain ⟨s, hs, h⟩ := mem_ifOk.mp h
      obtain ⟨pre, segment, post, t, -, -, hfile⟩ := mem_trail.mp h
      exact .inr ⟨s, hs, segment, t, hfile⟩

theorem of_manifest_opened {path : String}
    (h : .manifest provider entry path ∈ openedByLoadTables fs c) :
    provider ∈ c.providers ∧ CatalogLists fs (catalogPath provider).string entry ∧
      ∃ manifestPath, resolveOwnedPath fs ⟨provider.directory⟩ ⟨entry.manifestFile⟩
        "Detector manifest" = .ok manifestPath ∧ path = manifestPath.string := by
  rcases mem_openedByLoadTables h with ⟨p, hp, t, hfile⟩ | ⟨s, -, segment, t, hfile⟩
  · rcases mem_openedByCatalog hfile with hcatalog | ⟨e, manifestPath, hlists, hpath, hmanifest⟩
    · cases hcatalog
    · obtain ⟨rfl, rfl, rfl⟩ := OpenedFile.manifest.inj hmanifest
      exact ⟨hp, hlists, manifestPath, hpath, rfl⟩
  · obtain ⟨files, -, mapping, -, hmapping⟩ := mem_openedByRunRange hfile
    cases hmapping

theorem of_mapping_opened {file : MappingFile}
    (h : .mapping file ∈ openedByLoadTables fs c) : CatalogsValid fs c.providers ∧
      ∃ x path, Names fs c.providers x ∧
        resolveOwnedPath fs x.directory ⟨x.mappingFile⟩ "Mapping file" = .ok path ∧
        file = ⟨x.detector, path.string⟩ := by
  rcases mem_openedByLoadTables h with ⟨p, hp, t, hfile⟩ | ⟨s, hs, segment, t, hfile⟩
  · rcases mem_openedByCatalog hfile with hcatalog | ⟨e, manifestPath, -, -, hmanifest⟩
    · cases hcatalog
    · cases hmanifest
  · obtain ⟨files, hfiles, mapping, hmem, hmapping⟩ := mem_openedByRunRange hfile
    obtain rfl := OpenedFile.mapping.inj hmapping
    obtain ⟨x, path, hx, hpath, hfile⟩ := exists_selects_of_file hs hfiles hmem
    exact ⟨(loadCatalogs_loaded hs).valid, x, path, .of_selects hx, hpath, hfile⟩

end Opened

section Confinement

variable {fs : FileSystem} {c : Configuration} {provider : DetectorMappingCatalogProvider}
  {entry : DetectorMappingCatalogEntry}

/-- The manifest is not the directory of the catalog itself, which cannot be read. -/
theorem CatalogsValid.manifest_ne_directory (hvalid : CatalogsValid fs c.providers)
    (hfs : CanonicalPaths fs) (hprovider : provider ∈ c.providers)
    (hlists : CatalogLists fs (catalogPath provider).string entry) {manifestPath owner : Path}
    (hpath : resolveOwnedPath fs ⟨provider.directory⟩ ⟨entry.manifestFile⟩ "Detector manifest" =
      .ok manifestPath) (howner : fs.weaklyCanonical ⟨provider.directory⟩ = .ok owner) :
    manifestPath.names ≠ owner.names := by
  intro hnames
  obtain ⟨entries, hentries⟩ := hvalid.catalogs provider hprovider
  obtain ⟨path, ranges, hpath', hranges⟩ := hvalid.manifests provider hprovider entry hlists
  obtain rfl := Except.ok.inj (hpath.symm.trans hpath')
  obtain ⟨catalog, -, hcatalog, -⟩ := loadDetectorMappingCatalog_ok_iff.mp hentries
  obtain ⟨manifest, -, hmanifest, -, heof, -⟩ := loadDetectorMappingManifest_ok_iff.mp hranges
  obtain ⟨-, -, _, -, hresolved, -⟩ := resolveOwnedPath_eq_ok hpath
  have habsolute := hfs.isAbsolute _ _ hresolved
  have hunread := hfs.directory ⟨provider.directory⟩ owner "manifest.map" catalog (by decide)
    (by decide) howner hcatalog manifestPath habsolute hnames manifest hmanifest
  rw [heof] at hunread
  cases hunread

/-- A row of a manifest is resolved against the directory of the manifest, and so inside the
directory of the catalog too. -/
theorem CatalogsValid.mapping_confined (hvalid : CatalogsValid fs c.providers)
    (hfs : CanonicalPaths fs) (hprovider : provider ∈ c.providers)
    (hlists : CatalogLists fs (catalogPath provider).string entry) {manifestPath path : Path}
    {mappingFile : String}
    (hmanifest : resolveOwnedPath fs ⟨provider.directory⟩ ⟨entry.manifestFile⟩
      "Detector manifest" = .ok manifestPath)
    (hpath : resolveOwnedPath fs manifestPath.parentPath ⟨mappingFile⟩ "Mapping file" =
      .ok path) : Confined fs ⟨provider.directory⟩ path.string := by
  obtain ⟨owner, howner, hinside⟩ := hfs.inside hmanifest
  obtain ⟨-, -, owner', howner', hresolved, -⟩ := resolveOwnedPath_eq_ok hmanifest
  obtain ⟨-, -, parent, -, hcanonical, -⟩ := resolveOwnedPath_eq_ok hpath
  have hne := hvalid.manifest_ne_directory hfs hprovider hlists hmanifest howner
  have hin : path.Inside owner := hfs.inside_of_parent hresolved hinside hne hpath
  exact ⟨owner, _, path, howner, hcanonical, rfl, hin⟩

theorem manifest_confined (hfs : CanonicalPaths fs) {path : String}
    (hopened : .manifest provider entry path ∈ openedByLoadTables fs c) :
    provider ∈ c.providers ∧ CatalogLists fs (catalogPath provider).string entry ∧
      ¬ Escapes fs ⟨provider.directory⟩ ⟨entry.manifestFile⟩ ∧
      Confined fs ⟨provider.directory⟩ path := by
  obtain ⟨hprovider, hlists, manifestPath, hpath, rfl⟩ := of_manifest_opened hopened
  exact ⟨hprovider, hlists, hfs.not_escapes hpath, hfs.confined hpath⟩

theorem loadTables_error_of_entry (hfs : CanonicalPaths fs) (hprovider : provider ∈ c.providers)
    (hlists : CatalogLists fs (catalogPath provider).string entry)
    (hescapes : Escapes fs ⟨provider.directory⟩ ⟨entry.manifestFile⟩) :
    ∃ message, loadTables fs c = .error message := by
  cases hload : loadTables fs c with
  | error message => exact ⟨message, rfl⟩
  | ok runTables =>
    have hvalid := valid_of_loadTables (List.ne_nil_of_mem hprovider) hload
    obtain ⟨path, -, hpath, -⟩ := hvalid.manifests provider hprovider entry hlists
    exact absurd hescapes (hfs.not_escapes hpath)

theorem loadTables_error_of_names (hfs : CanonicalPaths fs) {x : Selection}
    (hx : Names fs c.providers x) (hescapes : Escapes fs x.directory ⟨x.mappingFile⟩) :
    ∃ message, loadTables fs c = .error message := by
  cases hload : loadTables fs c with
  | error message => exact ⟨message, rfl⟩
  | ok runTables =>
    have hproviders : c.providers ≠ [] := by
      obtain ⟨provider, hprovider, -⟩ := hx
      exact List.ne_nil_of_mem hprovider
    obtain ⟨path, hpath, -⟩ := (valid_of_loadTables hproviders hload).mappingFiles x hx
    exact absurd hescapes (hfs.not_escapes hpath)

/-- The run range for which the mapping file would be read is given up without any of its
files having been opened. -/
theorem runRange_error_of_selects (hfs : CanonicalPaths fs) {s : Manifests}
    (hs : c.providers.foldlM (loadCatalog fs) {} = .ok s) {segment : UInt64 × UInt64}
    {x : Selection} (hx : Selects fs c.providers segment.1 x)
    (hescapes : Escapes fs x.directory ⟨x.mappingFile⟩) (t : Building) :
    openedByRunRange fs s.detectorManifests t segment = [] ∧
      ∃ message, addRunRange fs s.detectorManifests t segment = .error message := by
  cases hfiles : selectMappingFiles fs s.detectorManifests segment.1 with
  | error message =>
    rw [openedByRunRange, addRunRange, hfiles]
    exact ⟨rfl, message, rfl⟩
  | ok files =>
    obtain ⟨path, hpath, -⟩ := exists_file_of_selects hs hfiles hx
    exact absurd hescapes (hfs.not_escapes hpath)

/-- Every manifest and every mapping file that is opened is in the mapping directory of its
provider, and the mapping file in the directory of its manifest. A reference out of these
directories fails the load, and nothing is opened for it. -/
theorem openedFiles_confined (fs : FileSystem) (hfs : CanonicalPaths fs) (c : Configuration) :
    (∀ provider entry path, .manifest provider entry path ∈ openedByLoadTables fs c →
      provider ∈ c.providers ∧ CatalogLists fs (catalogPath provider).string entry ∧
        ¬ Escapes fs ⟨provider.directory⟩ ⟨entry.manifestFile⟩ ∧
        Confined fs ⟨provider.directory⟩ path) ∧
      (∀ file, .mapping file ∈ openedByLoadTables fs c → ∃ provider ∈ c.providers,
        ∃ entry manifestPath range, CatalogLists fs (catalogPath provider).string entry ∧
          entry.detector = file.detector ∧
          resolveOwnedPath fs ⟨provider.directory⟩ ⟨entry.manifestFile⟩ "Detector manifest" =
            .ok manifestPath ∧ ManifestLists fs manifestPath.string range ∧
          ¬ Escapes fs manifestPath.parentPath ⟨range.mappingFile⟩ ∧
          (∃ path, resolveOwnedPath fs manifestPath.parentPath ⟨range.mappingFile⟩
            "Mapping file" = .ok path ∧ path.string = file.path) ∧
          Confined fs manifestPath.parentPath file.path ∧
          Confined fs ⟨provider.directory⟩ file.path) ∧
      (∀ provider ∈ c.providers, ∀ entry, CatalogLists fs (catalogPath provider).string entry →
        Escapes fs ⟨provider.directory⟩ ⟨entry.manifestFile⟩ →
          (∃ message, loadTables fs c = .error message) ∧
            ∀ path, .manifest provider entry path ∉ openedByLoadTables fs c) ∧
      ∀ x, Names fs c.providers x → Escapes fs x.directory ⟨x.mappingFile⟩ →
        (∃ message, loadTables fs c = .error message) ∧
          ∀ s, c.providers.foldlM (loadCatalog fs) {} = .ok s → ∀ segment,
            Selects fs c.providers segment.1 x → ∀ t,
              openedByRunRange fs s.detectorManifests t segment = [] ∧
                ∃ message, addRunRange fs s.detectorManifests t segment = .error message := by
  refine ⟨fun provider entry path => manifest_confined hfs, ?_, ?_, ?_⟩
  · intro file hopened
    obtain ⟨hvalid, x, path, hx, hpath, rfl⟩ := of_mapping_opened hopened
    obtain ⟨provider, hprovider, entry, hlists, hdetector, manifestPath, hmanifestPath, hdirectory,
      range, hrange, hfile⟩ := hx
    rw [← hdirectory, ← hfile] at hpath
    have hconfined := hvalid.mapping_confined hfs hprovider hlists hmanifestPath hpath
    exact ⟨provider, hprovider, entry, manifestPath, range, hlists, hdetector, hmanifestPath,
      hrange, hfs.not_escapes hpath, ⟨path, hpath, rfl⟩, hfs.confined hpath, hconfined⟩
  · intro provider hprovider entry hlists hescapes
    refine ⟨loadTables_error_of_entry hfs hprovider hlists hescapes, ?_⟩
    intro path hopened
    exact (manifest_confined hfs hopened).2.2.1 hescapes
  · intro x hx hescapes
    refine ⟨loadTables_error_of_names hfs hx hescapes, ?_⟩
    intro s hs segment hselects t
    exact runRange_error_of_selects hfs hs hselects hescapes t

/-- The files of `handover`, in directories without links. -/
def withoutLinks : FileSystem :=
  { handover with
    weaklyCanonical := fun p =>
      if p.isAbsolute = true ∧ ∀ name ∈ p.names, name ≠ "." ∧ name ≠ ".." then .ok p
      else .error "No such file or directory" }

theorem weaklyCanonical_withoutLinks {p q : Path} (h : withoutLinks.weaklyCanonical p = .ok q) :
    q = p ∧ p.isAbsolute = true ∧ ∀ name ∈ p.names, name ≠ "." ∧ name ≠ ".." := by
  simp only [withoutLinks] at h
  split at h
  next hplain => exact ⟨(Except.ok.inj h).symm, hplain⟩
  · cases h

theorem mem_of_read_withoutLinks {path : String} {content : FileContent}
    (h : withoutLinks.read path = some content) :
    path ∈ ["/maps/manifest.map", "/maps/bcal/manifest.map", "/maps/hms/manifest.map",
      "/maps/bcal/bcal.map", "/maps/hms/hms.map"] := by
  by_contra hnone
  simp only [List.mem_cons, List.not_mem_nil, or_false, not_or] at hnone
  simp [withoutLinks, handover, hnone] at h

theorem canonicalPaths_withoutLinks : CanonicalPaths withoutLinks where
  isAbsolute := by
    intro p q h
    obtain ⟨rfl, habsolute, -⟩ := weaklyCanonical_withoutLinks h
    exact habsolute
  plain := by
    intro p q h
    obtain ⟨rfl, -, hplain⟩ := weaklyCanonical_withoutLinks h
    exact hplain
  parent := by
    intro p q parent _ h
    rw [(weaklyCanonical_withoutLinks h).1]
  directory := by
    intro directory owner name content hne hslash howner hread p _ hnames other hother
    obtain ⟨rfl, -⟩ := weaklyCanonical_withoutLinks howner
    -- none of the files is below another one
    have hfiles : ∀ f ∈ ["/maps/manifest.map", "/maps/bcal/manifest.map", "/maps/hms/manifest.map",
        "/maps/bcal/bcal.map", "/maps/hms/hms.map"], ∀ g ∈ ["/maps/manifest.map",
        "/maps/bcal/manifest.map", "/maps/hms/manifest.map", "/maps/bcal/bcal.map",
        "/maps/hms/hms.map"], (⟨f⟩ : Path).names.dropLast ≠ (⟨g⟩ : Path).names := by
      decide +kernel
    have hbelow := Path.names_append owner hslash hne
    have happart := hfiles _ (mem_of_read_withoutLinks hread) _ (mem_of_read_withoutLinks hother)
    refine absurd ?_ happart
    change (owner / ⟨name⟩ : Path).names.dropLast = p.names
    rw [hbelow, List.dropLast_concat, hnames]

theorem openedFiles_confined_hms :
    Confined withoutLinks ⟨"/maps"⟩ "/maps/hms/manifest.map" ∧
      Confined withoutLinks ⟨"/maps"⟩ "/maps/hms/hms.map" := by
  have hproviders : (⟨"/maps", [], []⟩ : Configuration).providers =
      [⟨"TRANSLATION:DIRECTORY", "/maps"⟩] := by decide +kernel
  obtain ⟨hmanifests, hmappings, -⟩ :=
    openedFiles_confined withoutLinks canonicalPaths_withoutLinks ⟨"/maps", [], []⟩
  have hmanifest := hmanifests ⟨"TRANSLATION:DIRECTORY", "/maps"⟩ ⟨"HMS", "hms/manifest.map"⟩
    "/maps/hms/manifest.map" (by decide +kernel)
  obtain ⟨provider, hprovider, entry, manifestPath, range, -, -, -, -, -, -, -, hmapping⟩ :=
    hmappings ⟨"HMS", "/maps/hms/hms.map"⟩ (by decide +kernel)
  rw [hproviders] at hprovider
  obtain rfl := List.mem_singleton.mp hprovider
  exact ⟨hmanifest.2.2.2, hmapping⟩

end Confinement

end JanaExtensions.TranslationService
