import JanaExtensions.EagerValidation
import JanaExtensions.MappingRows

/-! The order of the catalogs, and of the rows of the files, makes no difference to what the
service loads. -/

namespace JanaExtensions

open Failing IntervalTable

section Rows

def RowsPermuted (content content' : FileContent) : Prop :=
  content.eof = content'.eof ∧ content.tokenLines.Perm content'.tokenLines

theorem RowsPermuted.symm {content content' : FileContent} (h : RowsPermuted content content') :
    RowsPermuted content' content := ⟨h.1.symm, h.2.symm⟩

theorem catalogLines_perm {lines lines' : List (List String)} (hperm : lines.Perm lines')
    (h : CatalogLines lines) : CatalogLines lines' := by
  obtain ⟨entries, hlines, hne, hnodup⟩ := h
  obtain ⟨entries', hlines', hentries⟩ := List.perm_comp_forall₂ hperm.symm hlines
  refine ⟨entries', hlines', ?_, (hentries.map _).nodup_iff.mpr hnodup⟩
  intro hnil
  exact hne (List.perm_nil.mp (hnil ▸ hentries.symm))

theorem manifestLines_perm {lines lines' : List (List String)} (hperm : lines.Perm lines')
    (h : ManifestLines lines) : ManifestLines lines' := by
  obtain ⟨ranges, hlines, hne, hseparate⟩ := h
  obtain ⟨ranges', hlines', hranges⟩ := List.perm_comp_forall₂ hperm.symm hlines
  refine ⟨ranges', hlines', ?_, (hranges.pairwise_iff fun hab => hab.symm).mpr hseparate⟩
  intro hnil
  exact hne (List.perm_nil.mp (hnil ▸ hranges.symm))

end Rows

namespace TranslationTable

def isChannelLine (tokens : List String) : Bool :=
  tokens.head? ≠ some "detector" && tokens.head? ≠ some "fields"

/-- The declaration at a line, if it is one. -/
def declaration (tokens : List String) : Option (List String) :=
  if isChannelLine tokens then none else some tokens

/-- The channel rows are in another order, the declarations where they were. -/
structure ChannelsPermuted (lines lines' : List (List String)) : Prop where
  declarations : lines.map declaration = lines'.map declaration
  channels : (lines.filter isChannelLine).Perm (lines'.filter isChannelLine)

variable {lines lines' : List (List String)}

theorem ChannelsPermuted.symm (h : ChannelsPermuted lines lines') : ChannelsPermuted lines' lines :=
  ⟨h.declarations.symm, h.channels.symm⟩

theorem declaration_eq_some_iff {tokens tokens' : List String} :
    declaration tokens = some tokens' ↔ isChannelLine tokens = false ∧ tokens = tokens' := by
  rw [declaration]
  cases isChannelLine tokens <;> simp

theorem ChannelsPermuted.mem_of_mem (h : ChannelsPermuted lines lines') {tokens : List String}
    (hmem : tokens ∈ lines) : tokens ∈ lines' := by
  by_cases hchannel : isChannelLine tokens = true
  · have hfilter := h.channels.mem_iff.mp (List.mem_filter.mpr ⟨hmem, hchannel⟩)
    exact (List.mem_filter.mp hfilter).1
  · have hsome : declaration tokens = some tokens :=
      declaration_eq_some_iff.mpr ⟨by simpa using hchannel, rfl⟩
    have hmap : some tokens ∈ lines'.map declaration :=
      h.declarations ▸ List.mem_map.mpr ⟨tokens, hmem, hsome⟩
    obtain ⟨tokens', hmem', heq⟩ := List.mem_map.mp hmap
    obtain ⟨-, rfl⟩ := declaration_eq_some_iff.mp heq
    exact hmem'

theorem filter_not_isChannelLine (lines : List (List String)) :
    lines.filter (fun tokens => !isChannelLine tokens) = (lines.map declaration).filterMap id := by
  induction lines with
  | nil => rfl
  | cons tokens lines ih =>
    cases hchannel : isChannelLine tokens <;> simp [declaration, hchannel, ih]

theorem ChannelsPermuted.perm (h : ChannelsPermuted lines lines') : lines.Perm lines' := by
  have hrest : lines.filter (fun tokens => !isChannelLine tokens) =
      lines'.filter fun tokens => !isChannelLine tokens := by
    rw [filter_not_isChannelLine, filter_not_isChannelLine, h.declarations]
  have hall := h.channels.append (List.Perm.of_eq hrest)
  exact (List.filter_append_perm _ lines).symm.trans
    (hall.trans (List.filter_append_perm _ lines'))

theorem isChannelLine_of_isChannelRow {detector : String} {names tokens : List String}
    {daq : DAQAddress} {address : DetectorAddress}
    (h : IsChannelRow detector names tokens daq address) : isChannelLine tokens = true := by
  cases tokens with
  | nil => rfl
  | cons first rest =>
    have hnumber : fromCharsUInt32 first ≠ none := fun hnone => not_isChannelRow hnone h
    have hdetector : first ≠ "detector" := by
      rintro rfl
      exact hnumber (by decide +kernel)
    have hfields : first ≠ "fields" := by
      rintro rfl
      exact hnumber (by decide +kernel)
    simp [isChannelLine, hdetector, hfields]

theorem ChannelLines.isChannelLine {detector : String} {names : List String}
    (h : ChannelLines detector names lines) :
    ∀ tokens ∈ lines, TranslationTable.isChannelLine tokens = true := by
  obtain ⟨entries, hlines, -⟩ := h
  induction hlines with
  | nil => simp
  | cons hrow _ ih => exact List.forall_mem_cons.mpr ⟨isChannelLine_of_isChannelRow hrow, ih⟩

theorem channelLines_perm {detector : String} {names : List String} (hperm : lines.Perm lines')
    (h : ChannelLines detector names lines) : ChannelLines detector names lines' := by
  obtain ⟨entries, hlines, hnodup⟩ := h
  obtain ⟨entries', hlines', hentries⟩ := List.perm_comp_forall₂ hperm.symm hlines
  exact ⟨entries', hlines', (hentries.map _).nodup_iff.mpr hnodup⟩

theorem ChannelsPermuted.mappingLines {expectedDetector : String} (h : ChannelsPermuted lines lines')
    (hlines : MappingLines expectedDetector lines) : MappingLines expectedDetector lines' := by
  obtain ⟨detector, names, channels, rfl, hexpected, hne, hnodup, hchannels⟩ := hlines
  have hd : TranslationTable.isChannelLine ["detector", detector] = false := by
    simp [TranslationTable.isChannelLine]
  have hf : TranslationTable.isChannelLine ("fields" :: names) = false := by
    simp [TranslationTable.isChannelLine]
  obtain ⟨hdeclarations, hperm⟩ := h
  rw [List.map_cons, List.map_cons, declaration_eq_some_iff.mpr ⟨hd, rfl⟩,
    declaration_eq_some_iff.mpr ⟨hf, rfl⟩] at hdeclarations
  obtain ⟨first, rest, rfl, hfirst, hrest⟩ := List.map_eq_cons_iff.mp hdeclarations.symm
  obtain ⟨second, channels', rfl, hsecond, hmap⟩ := List.map_eq_cons_iff.mp hrest
  obtain ⟨-, rfl⟩ := declaration_eq_some_iff.mp hfirst
  obtain ⟨-, rfl⟩ := declaration_eq_some_iff.mp hsecond
  have hall := hchannels.isChannelLine
  have hall' : ∀ tokens ∈ channels', TranslationTable.isChannelLine tokens = true := by
    intro tokens htokens
    by_contra hnot
    have hsome : declaration tokens = some tokens :=
      declaration_eq_some_iff.mpr ⟨by simpa using hnot, rfl⟩
    have hmem : some tokens ∈ channels.map declaration :=
      hmap ▸ List.mem_map.mpr ⟨tokens, htokens, hsome⟩
    obtain ⟨t, ht, heq⟩ := List.mem_map.mp hmem
    have hchannel := hall t ht
    rw [(declaration_eq_some_iff.mp heq).1] at hchannel
    cases hchannel
  simp only [List.filter_cons, hd, hf, Bool.false_eq_true, if_false] at hperm
  rw [List.filter_eq_self.mpr hall, List.filter_eq_self.mpr hall'] at hperm
  exact ⟨detector, names, channels', rfl, hexpected, hne, hnodup, channelLines_perm hperm hchannels⟩

end TranslationTable

def ChannelRowsPermuted (content content' : FileContent) : Prop :=
  content.eof = content'.eof ∧ TranslationTable.ChannelsPermuted content.tokenLines content'.tokenLines

theorem ChannelRowsPermuted.symm {content content' : FileContent}
    (h : ChannelRowsPermuted content content') : ChannelRowsPermuted content' content :=
  ⟨h.1.symm, h.2.symm⟩

section Reads

variable {fs fs' : FileSystem} {path : String} {R : FileContent → FileContent → Prop}

/-- The file is missing from both file systems, or its contents are related. -/
def ReadsAs (R : FileContent → FileContent → Prop) (fs fs' : FileSystem) (path : String) : Prop :=
  Option.Rel R (fs.read path) (fs'.read path)

theorem ReadsAs.exists_read (h : ReadsAs R fs fs' path) {content : FileContent}
    (hread : fs.read path = some content) :
    ∃ content', fs'.read path = some content' ∧ R content content' := by
  rw [ReadsAs, hread] at h
  generalize hread' : fs'.read path = read' at h
  cases h with
  | some hR => exact ⟨_, rfl, hR⟩

theorem ReadsAs.symm (hR : ∀ a b, R a b → R b a) (h : ReadsAs R fs fs' path) :
    ReadsAs R fs' fs path := by
  rw [ReadsAs] at h ⊢
  generalize fs.read path = read at h ⊢
  generalize fs'.read path = read' at h ⊢
  cases h with
  | some h => exact .some (hR _ _ h)
  | none => exact .none

theorem ReadsAs.imp {R' : FileContent → FileContent → Prop} (h : ReadsAs R fs fs' path)
    (hR : ∀ a b, R a b → R' a b) : ReadsAs R' fs fs' path := by
  rw [ReadsAs] at h ⊢
  generalize fs.read path = read at h ⊢
  generalize fs'.read path = read' at h ⊢
  cases h with
  | some h => exact .some (hR _ _ h)
  | none => exact .none

theorem catalogLists_iff_lines {entry : DetectorMappingCatalogEntry} :
    CatalogLists fs path entry ↔ ∃ content, fs.read path = some content ∧
      [entry.detector, entry.manifestFile] ∈ content.tokenLines := by
  simp [CatalogLists, mem_tokenLines_iff]

theorem manifestLists_iff_lines {range : DetectorMappingRunRange} :
    ManifestLists fs path range ↔ ∃ content, fs.read path = some content ∧
      ∃ tokens ∈ content.tokenLines, range.IsRow tokens := by
  refine exists_congr fun content => and_congr_right fun _ => ?_
  constructor
  · intro hh
    obtain ⟨row, hrow, hrange⟩ := hh
    have hne : row.2 ≠ [] := by
      obtain ⟨first, last, htokens, -⟩ := hrange
      simp [htokens]
    exact ⟨row.2, mem_tokenLines_iff.mpr ⟨⟨row, hrow, rfl⟩, hne⟩, hrange⟩
  · intro hh
    obtain ⟨tokens, htokens, hrange⟩ := hh
    obtain ⟨⟨row, hrow, rfl⟩, -⟩ := mem_tokenLines_iff.mp htokens
    exact ⟨row, hrow, hrange⟩

theorem mappingGives_iff_lines {daq : DAQAddress} {address : DetectorAddress} :
    TranslationTable.MappingGives fs path daq address ↔ ∃ content, fs.read path = some content ∧
      ∃ detector names, ["detector", detector] ∈ content.tokenLines ∧
        "fields" :: names ∈ content.tokenLines ∧ ∃ tokens ∈ content.tokenLines,
          TranslationTable.IsChannelRow detector names tokens daq address := by
  refine exists_congr fun content => and_congr_right fun _ => ?_
  refine exists_congr fun detector => exists_congr fun names => ?_
  refine and_congr (by simp [mem_tokenLines_iff]) (and_congr (by simp [mem_tokenLines_iff]) ?_)
  constructor
  · intro hh
    obtain ⟨row, hrow, hchannel⟩ := hh
    have hne : row.2 ≠ [] := by
      obtain ⟨rocid, slot, channel, values, numbers, htokens, -⟩ := hchannel
      simp [htokens]
    exact ⟨row.2, mem_tokenLines_iff.mpr ⟨⟨row, hrow, rfl⟩, hne⟩, hchannel⟩
  · intro hh
    obtain ⟨tokens, htokens, hchannel⟩ := hh
    obtain ⟨⟨row, hrow, rfl⟩, -⟩ := mem_tokenLines_iff.mp htokens
    exact ⟨row, hrow, hchannel⟩

theorem catalogLists_of_permuted (h : ReadsAs RowsPermuted fs fs' path)
    {entry : DetectorMappingCatalogEntry} (hlists : CatalogLists fs path entry) :
    CatalogLists fs' path entry := by
  obtain ⟨content, hread, hmem⟩ := catalogLists_iff_lines.mp hlists
  obtain ⟨content', hread', -, hperm⟩ := h.exists_read hread
  exact catalogLists_iff_lines.mpr ⟨content', hread', hperm.mem_iff.mp hmem⟩

theorem manifestLists_of_permuted (h : ReadsAs RowsPermuted fs fs' path)
    {range : DetectorMappingRunRange} (hlists : ManifestLists fs path range) :
    ManifestLists fs' path range := by
  obtain ⟨content, hread, tokens, hmem, hrow⟩ := manifestLists_iff_lines.mp hlists
  obtain ⟨content', hread', -, hperm⟩ := h.exists_read hread
  exact manifestLists_iff_lines.mpr ⟨content', hread', tokens, hperm.mem_iff.mp hmem, hrow⟩

theorem mappingGives_of_permuted (h : ReadsAs ChannelRowsPermuted fs fs' path) {daq : DAQAddress}
    {address : DetectorAddress} (hgives : TranslationTable.MappingGives fs path daq address) :
    TranslationTable.MappingGives fs' path daq address := by
  obtain ⟨content, hread, detector, names, hdetector, hfields, tokens, hmem, hchannel⟩ :=
    mappingGives_iff_lines.mp hgives
  obtain ⟨content', hread', -, hperm⟩ := h.exists_read hread
  exact mappingGives_iff_lines.mpr ⟨content', hread', detector, names, hperm.mem_of_mem hdetector,
    hperm.mem_of_mem hfields, tokens, hperm.mem_of_mem hmem, hchannel⟩

theorem exists_catalog_of_permuted (h : ReadsAs RowsPermuted fs fs' path)
    (hload : ∃ entries, loadDetectorMappingCatalog fs path = .ok entries) :
    ∃ entries, loadDetectorMappingCatalog fs' path = .ok entries := by
  obtain ⟨content, hread, heof, hlines⟩ := loadDetectorMappingCatalog_iff.mp hload
  obtain ⟨content', hread', heof', hperm⟩ := h.exists_read hread
  exact loadDetectorMappingCatalog_iff.mpr
    ⟨content', hread', heof' ▸ heof, catalogLines_perm hperm hlines⟩

theorem exists_manifest_of_permuted (h : ReadsAs RowsPermuted fs fs' path)
    (hload : ∃ ranges, loadDetectorMappingManifest fs path = .ok ranges) :
    ∃ ranges, loadDetectorMappingManifest fs' path = .ok ranges := by
  obtain ⟨content, hread, heof, hlines⟩ := loadDetectorMappingManifest_iff.mp hload
  obtain ⟨content', hread', heof', hperm⟩ := h.exists_read hread
  exact loadDetectorMappingManifest_iff.mpr
    ⟨content', hread', heof' ▸ heof, manifestLines_perm hperm hlines⟩

theorem loadMappingFile_alone_iff {expectedDetector : String} :
    (∃ table, TranslationTable.loadMappingFile fs {} path expectedDetector = .ok table) ↔
      ∃ content, fs.read path = some content ∧ content.eof = true ∧
        TranslationTable.MappingLines expectedDetector content.tokenLines := by
  simp only [TranslationTable.loadMappingFile_ok_iff, ← TranslationTable.mappingRows_iff path]
  constructor
  · intro hh
    obtain ⟨table, content, s, hread, hrows, heof, hd, hf, -⟩ := hh
    exact ⟨content, hread, heof, s, hrows, hd, hf⟩
  · intro hh
    obtain ⟨content, hread, heof, s, hrows, hd, hf⟩ := hh
    have hcombine : ∃ table, TranslationTable.combine path {} s.loaded = .ok table :=
      TranslationTable.exists_combine fun _ _ _ => rfl
    obtain ⟨table, htable⟩ := hcombine
    exact ⟨table, content, s, hread, hrows, heof, hd, hf, htable⟩

theorem exists_mapping_of_permuted (h : ReadsAs ChannelRowsPermuted fs fs' path)
    {expectedDetector : String}
    (hload : ∃ table, TranslationTable.loadMappingFile fs {} path expectedDetector = .ok table) :
    ∃ table, TranslationTable.loadMappingFile fs' {} path expectedDetector = .ok table := by
  obtain ⟨content, hread, heof, hlines⟩ := loadMappingFile_alone_iff.mp hload
  obtain ⟨content', hread', heof', hperm⟩ := h.exists_read hread
  exact loadMappingFile_alone_iff.mpr ⟨content', hread', heof' ▸ heof, hperm.mappingLines hlines⟩

end Reads

namespace TranslationService

variable {fs fs' : FileSystem} {providers providers' : List DetectorMappingCatalogProvider}

/-- The rows of the catalogs and manifests, and the channel rows of the mapping files, are in
another order. -/
structure Rearranged (fs fs' : FileSystem) (providers : List DetectorMappingCatalogProvider) :
    Prop where
  weaklyCanonical : fs'.weaklyCanonical = fs.weaklyCanonical
  catalogs : ∀ provider ∈ providers, ReadsAs RowsPermuted fs fs' (catalogPath provider).string
  manifests : ∀ provider ∈ providers, ∀ entry,
    CatalogLists fs (catalogPath provider).string entry → ∀ path,
      resolveOwnedPath fs ⟨provider.directory⟩ ⟨entry.manifestFile⟩ "Detector manifest" = .ok path →
      ReadsAs RowsPermuted fs fs' path.string
  mappingFiles : ∀ x, Names fs providers x → ∀ path,
    resolveOwnedPath fs x.directory ⟨x.mappingFile⟩ "Mapping file" = .ok path →
      ReadsAs ChannelRowsPermuted fs fs' path.string

theorem Rearranged.resolveOwnedPath (h : Rearranged fs fs' providers) (directory path : Path)
    (description : String) : resolveOwnedPath fs' directory path description =
      JanaExtensions.resolveOwnedPath fs directory path description := by
  simp only [JanaExtensions.resolveOwnedPath, h.weaklyCanonical]

theorem Rearranged.catalogLists_iff (h : Rearranged fs fs' providers)
    {provider : DetectorMappingCatalogProvider} (hprovider : provider ∈ providers)
    (entry : DetectorMappingCatalogEntry) :
    CatalogLists fs (catalogPath provider).string entry ↔
      CatalogLists fs' (catalogPath provider).string entry := by
  have hreads := h.catalogs provider hprovider
  exact ⟨catalogLists_of_permuted hreads,
    catalogLists_of_permuted (hreads.symm fun _ _ hperm => hperm.symm)⟩

theorem Rearranged.manifestLists_iff (h : Rearranged fs fs' providers)
    {provider : DetectorMappingCatalogProvider} (hprovider : provider ∈ providers)
    {entry : DetectorMappingCatalogEntry}
    (hentry : CatalogLists fs (catalogPath provider).string entry) {path : Path}
    (hpath : JanaExtensions.resolveOwnedPath fs ⟨provider.directory⟩ ⟨entry.manifestFile⟩
      "Detector manifest" = .ok path) (range : DetectorMappingRunRange) :
    ManifestLists fs path.string range ↔ ManifestLists fs' path.string range := by
  have hreads := h.manifests provider hprovider entry hentry path hpath
  exact ⟨manifestLists_of_permuted hreads,
    manifestLists_of_permuted (hreads.symm fun _ _ hperm => hperm.symm)⟩

/-- The manifests of a detector are in the same places, and list the same ranges. -/
theorem Rearranged.exists_range_iff (h : Rearranged fs fs' providers) (x : Selection)
    (P : DetectorMappingRunRange → Prop) :
    (∃ provider ∈ providers, ∃ entry, CatalogLists fs (catalogPath provider).string entry ∧
      entry.detector = x.detector ∧ ∃ manifestPath,
        JanaExtensions.resolveOwnedPath fs ⟨provider.directory⟩ ⟨entry.manifestFile⟩
          "Detector manifest" = .ok manifestPath ∧
        manifestPath.parentPath = x.directory ∧
        ∃ range, ManifestLists fs manifestPath.string range ∧ P range) ↔
    ∃ provider ∈ providers, ∃ entry, CatalogLists fs' (catalogPath provider).string entry ∧
      entry.detector = x.detector ∧ ∃ manifestPath,
        JanaExtensions.resolveOwnedPath fs' ⟨provider.directory⟩ ⟨entry.manifestFile⟩
          "Detector manifest" = .ok manifestPath ∧
        manifestPath.parentPath = x.directory ∧
        ∃ range, ManifestLists fs' manifestPath.string range ∧ P range := by
  refine exists_congr fun provider => and_congr_right fun hprovider => ?_
  refine exists_congr fun entry => ?_
  rw [← h.catalogLists_iff hprovider]
  refine and_congr_right fun hentry => and_congr_right fun _ => ?_
  refine exists_congr fun path => ?_
  rw [h.resolveOwnedPath]
  refine and_congr_right fun hpath => and_congr_right fun _ => ?_
  exact exists_congr fun range => and_congr_left' (h.manifestLists_iff hprovider hentry hpath range)

theorem Rearranged.names_iff (h : Rearranged fs fs' providers) (x : Selection) :
    Names fs providers x ↔ Names fs' providers x :=
  h.exists_range_iff x fun range => range.mappingFile = x.mappingFile

theorem Rearranged.selects_iff (h : Rearranged fs fs' providers) (runNumber : UInt64)
    (x : Selection) : Selects fs providers runNumber x ↔ Selects fs' providers runNumber x :=
  h.exists_range_iff x fun range => range.mappingFile = x.mappingFile ∧
    range.runMin ≤ runNumber ∧ runNumber ≤ range.runMax

theorem Rearranged.symm (h : Rearranged fs fs' providers) : Rearranged fs' fs providers where
  weaklyCanonical := h.weaklyCanonical.symm
  catalogs provider hprovider := (h.catalogs provider hprovider).symm fun _ _ hperm => hperm.symm
  manifests provider hprovider entry hentry path hpath := by
    rw [h.resolveOwnedPath] at hpath
    have hentry := (h.catalogLists_iff hprovider entry).mpr hentry
    exact (h.manifests provider hprovider entry hentry path hpath).symm fun _ _ hperm => hperm.symm
  mappingFiles x hx path hpath := by
    rw [h.resolveOwnedPath] at hpath
    have hx := (h.names_iff x).mpr hx
    exact (h.mappingFiles x hx path hpath).symm fun _ _ hperm => hperm.symm

theorem Rearranged.gives (h : Rearranged fs fs' providers) {x : Selection}
    (hx : Names fs providers x) {daq : DAQAddress} {address : DetectorAddress}
    (hgives : x.Gives fs daq address) : x.Gives fs' daq address := by
  obtain ⟨path, hpath, hgives⟩ := hgives
  exact ⟨path, by rw [h.resolveOwnedPath, hpath],
    mappingGives_of_permuted (h.mappingFiles x hx path hpath) hgives⟩

theorem Rearranged.reads (h : Rearranged fs fs' providers) {x : Selection}
    (hx : Names fs providers x) (hreads : x.Reads fs) : x.Reads fs' := by
  obtain ⟨path, hpath, hloads⟩ := hreads
  exact ⟨path, by rw [h.resolveOwnedPath, hpath],
    exists_mapping_of_permuted (h.mappingFiles x hx path hpath) hloads⟩

theorem Rearranged.valid (h : Rearranged fs fs' providers) (hvalid : Valid fs providers) :
    Valid fs' providers where
  catalogs provider hprovider :=
    exists_catalog_of_permuted (h.catalogs provider hprovider) (hvalid.catalogs provider hprovider)
  manifests provider hprovider entry hentry := by
    have hentry := (h.catalogLists_iff hprovider entry).mpr hentry
    obtain ⟨path, ranges, hpath, hranges⟩ := hvalid.manifests provider hprovider entry hentry
    obtain ⟨ranges', hranges'⟩ := exists_manifest_of_permuted
      (h.manifests provider hprovider entry hentry path hpath) ⟨ranges, hranges⟩
    exact ⟨path, ranges', by rw [h.resolveOwnedPath, hpath], hranges'⟩
  different := by
    refine hvalid.different.imp_of_mem ?_
    intro p q hp hq hdifferent e f he hf
    exact hdifferent e f ((h.catalogLists_iff hp e).mpr he) ((h.catalogLists_iff hq f).mpr hf)
  mappingFiles x hx := by
    have hx := (h.names_iff x).mpr hx
    exact h.reads hx (hvalid.mappingFiles x hx)
  apart runNumber x y hx hy hne hshares := by
    obtain ⟨daq, a, b, ha, hb⟩ := hshares
    have hxfs := (h.selects_iff runNumber x).mpr hx
    have hyfs := (h.selects_iff runNumber y).mpr hy
    exact hvalid.apart runNumber x y hxfs hyfs hne
      ⟨daq, a, b, h.symm.gives (.of_selects hx) ha, h.symm.gives (.of_selects hy) hb⟩

theorem selects_perm (hperm : providers.Perm providers') {runNumber : UInt64} {x : Selection} :
    Selects fs providers runNumber x ↔ Selects fs providers' runNumber x := by
  simp only [Selects, hperm.mem_iff]

theorem names_perm (hperm : providers.Perm providers') {x : Selection} :
    Names fs providers x ↔ Names fs providers' x := by
  simp only [Names, hperm.mem_iff]

theorem Valid.perm (h : Valid fs providers) (hperm : providers.Perm providers') :
    Valid fs providers' where
  catalogs provider hprovider := h.catalogs provider (hperm.mem_iff.mpr hprovider)
  manifests provider hprovider := h.manifests provider (hperm.mem_iff.mpr hprovider)
  different := by
    refine (hperm.pairwise_iff ?_).mp h.different
    intro p q hdifferent e f he hf heq
    exact hdifferent f e hf he heq.symm
  mappingFiles x hx := h.mappingFiles x ((names_perm hperm).mpr hx)
  apart runNumber x y hx hy :=
    h.apart runNumber x y ((selects_perm hperm).mpr hx) ((selects_perm hperm).mpr hy)

/-- It is enough that the rows of all files are in another order, declarations apart. -/
theorem rearranged_of_readsAs (hcanonical : fs'.weaklyCanonical = fs.weaklyCanonical)
    (h : ∀ path, ReadsAs ChannelRowsPermuted fs fs' path) : Rearranged fs fs' providers where
  weaklyCanonical := hcanonical
  catalogs _ _ := (h _).imp fun _ _ hperm => ⟨hperm.1, hperm.2.perm⟩
  manifests _ _ _ _ _ _ := (h _).imp fun _ _ hperm => ⟨hperm.1, hperm.2.perm⟩
  mappingFiles _ _ path _ := h path.string

section Loaded

variable {c c' : Configuration} {runTables runTables' : List RunRangeTable}

theorem covers_of_answer (hordered : Ordered runTables) {runNumber : UInt64} {table : SharedTable}
    (h : answer runTables runNumber = .ok table) : Covers runTables runNumber table := by
  rw [answer] at h
  split at h
  · rename_i t ht
    obtain rfl := Except.ok.inj h
    obtain ⟨hmem, hlo, hhi⟩ := (findRunTable_eq_some_iff hordered).mp ht
    exact ⟨t, hmem, hlo, hhi, rfl⟩
  · cases h

theorem exists_answer_iff (hproviders : c.providers ≠ []) (h : loadTables fs c = .ok runTables)
    (runNumber : UInt64) : (∃ table, answer runTables runNumber = .ok table) ↔
      ∃ x, Selects fs c.providers runNumber x := by
  obtain ⟨hordered, hselected, -⟩ := loadTables_eq_ok hproviders h
  rw [← hselected, ← findRunTable_isSome_iff hordered, answer]
  cases findRunTable runTables runNumber <;> simp

theorem Rearranged.lookup_eq (hfs : Rearranged fs fs' c.providers)
    (hperm : c.providers.Perm c'.providers) (hproviders : c.providers ≠ [])
    (h : loadTables fs c = .ok runTables) (h' : loadTables fs' c' = .ok runTables')
    {runNumber : UInt64} {table table' : SharedTable}
    (htable : answer runTables runNumber = .ok table)
    (htable' : answer runTables' runNumber = .ok table') (daq : DAQAddress) :
    table.table.lookup daq = table'.table.lookup daq := by
  have hproviders' : c'.providers ≠ [] := fun hnil => hproviders (List.perm_nil.mp (hnil ▸ hperm))
  obtain ⟨hordered, -, hlookup⟩ := loadTables_eq_ok hproviders h
  obtain ⟨hordered', -, hlookup'⟩ := loadTables_eq_ok hproviders' h'
  apply Option.ext
  intro address
  rw [hlookup runNumber table (covers_of_answer hordered htable) daq address,
    hlookup' runNumber table' (covers_of_answer hordered' htable') daq address]
  refine exists_congr fun x => ?_
  rw [← selects_perm hperm, ← hfs.selects_iff]
  refine and_congr_right fun hx => ?_
  exact ⟨hfs.gives (.of_selects hx),
    hfs.symm.gives ((hfs.names_iff x).mp (.of_selects hx))⟩

end Loaded

/-- With the catalogs, their rows, those of the manifests and the channel rows of the mapping
files in another order, the service loads or fails alike, and then answers alike. -/
theorem loadTables_order_independent (fs fs' : FileSystem) (c c' : Configuration)
    (hperm : c.providers.Perm c'.providers) (hfs : Rearranged fs fs' c.providers) :
    ((∃ runTables, loadTables fs c = .ok runTables) ↔
      ∃ runTables, loadTables fs' c' = .ok runTables) ∧
    ((∃ runTables, loadTables fs c = .ok runTables) → ∀ earlier earlier' runNumber,
      ((∃ table, (Service.getTable fs (Service.afterCalls fs { configuration := c } earlier)
          runNumber).1 = .ok table) ↔
        ∃ table, (Service.getTable fs' (Service.afterCalls fs' { configuration := c' } earlier')
          runNumber).1 = .ok table) ∧
      ∀ table table',
        (Service.getTable fs (Service.afterCalls fs { configuration := c } earlier)
          runNumber).1 = .ok table →
        (Service.getTable fs' (Service.afterCalls fs' { configuration := c' } earlier')
          runNumber).1 = .ok table' →
        ∀ daq, table.table.lookup daq = table'.table.lookup daq) := by
  have hnil : c.providers = [] ↔ c'.providers = [] :=
    ⟨fun h => List.perm_nil.mp (h ▸ hperm.symm), fun h => List.perm_nil.mp (h ▸ hperm)⟩
  by_cases hproviders : c.providers = []
  · have h : loadTables fs c = .ok [⟨0, maxValue, ⟨0, {}⟩⟩] := by
      rw [loadTables, if_pos hproviders]
    have h' : loadTables fs' c' = .ok [⟨0, maxValue, ⟨0, {}⟩⟩] := by
      rw [loadTables, if_pos (hnil.mp hproviders)]
    refine ⟨iff_of_true ⟨_, h⟩ ⟨_, h'⟩, fun _ earlier earlier' runNumber => ?_⟩
    rw [getTable_afterCalls h, getTable_afterCalls h']
    refine ⟨Iff.rfl, fun table table' ht ht' daq => ?_⟩
    obtain rfl := Except.ok.inj (ht.symm.trans ht')
    rfl
  · have hproviders' : c'.providers ≠ [] := fun h => hproviders (hnil.mpr h)
    have hvalid : Valid fs c.providers ↔ Valid fs' c'.providers :=
      ⟨fun h => (hfs.valid h).perm hperm, fun h => hfs.symm.valid (h.perm hperm.symm)⟩
    have hload : (∃ runTables, loadTables fs c = .ok runTables) ↔
        ∃ runTables, loadTables fs' c' = .ok runTables := by
      constructor
      · intro hh
        obtain ⟨runTables, h⟩ := hh
        exact loadTables_of_valid hproviders' (hvalid.mp (valid_of_loadTables hproviders h))
      · intro hh
        obtain ⟨runTables, h⟩ := hh
        exact loadTables_of_valid hproviders (hvalid.mpr (valid_of_loadTables hproviders' h))
    refine ⟨hload, fun hh earlier earlier' runNumber => ?_⟩
    obtain ⟨runTables', h'⟩ := hload.mp hh
    obtain ⟨runTables, h⟩ := hh
    rw [getTable_afterCalls h, getTable_afterCalls h']
    refine ⟨?_, fun table table' ht ht' => hfs.lookup_eq hperm hproviders h h' ht ht'⟩
    rw [exists_answer_iff hproviders h, exists_answer_iff hproviders' h']
    exact exists_congr fun x => (hfs.selects_iff runNumber x).trans (selects_perm hperm)

/-- Two catalogs, one with two detectors, and rows in the given order. -/
def twoCatalogs (order : List String → List String) : FileSystem where
  read path :=
    if path = "/a/manifest.map" then
      some ⟨"\n".intercalate (order ["BCAL bcal.runs", "HMS hms.runs"]), true⟩
    else if path = "/a/bcal.runs" then
      some ⟨"\n".intercalate (order ["7 max new.map", "1 6 old.map"]), true⟩
    else if path = "/a/hms.runs" then some ⟨"5 max hms.map", true⟩
    else if path = "/a/old.map" then
      some ⟨"\n".intercalate ("detector BCAL" :: "fields module" ::
        order ["2 4 none 7", "2 5 1 8"]), true⟩
    else if path = "/a/new.map" then some ⟨"detector BCAL\nfields module\n2 4 none 8", true⟩
    else if path = "/a/hms.map" then some ⟨"detector HMS\nfields bar\n3 4 1 2", true⟩
    else if path = "/b/manifest.map" then some ⟨"SHMS shms.runs", true⟩
    else if path = "/b/shms.runs" then some ⟨"0 3 shms.map", true⟩
    else if path = "/b/shms.map" then some ⟨"detector SHMS\nfields bar\n3 4 1 2", true⟩
    else none
  weaklyCanonical path := .ok path

theorem rel_ite {α : Type*} {R : α → α → Prop} {p : Prop} [Decidable p] {a b c d : Option α}
    (hthen : Option.Rel R a b) (helse : Option.Rel R c d) :
    Option.Rel R (if p then a else c) (if p then b else d) := by
  by_cases hp : p
  · rwa [if_pos hp, if_pos hp]
  · rwa [if_neg hp, if_neg hp]

theorem readsAs_twoCatalogs (path : String) :
    ReadsAs ChannelRowsPermuted (twoCatalogs id) (twoCatalogs List.reverse) path := by
  have hsame (content : FileContent) : Option.Rel ChannelRowsPermuted (some content) (some content) :=
    .some ⟨rfl, rfl, .rfl⟩
  have hchanged (content content' : FileContent) (heof : content.eof = content'.eof)
      (hd : content.tokenLines.map TranslationTable.declaration =
        content'.tokenLines.map TranslationTable.declaration)
      (hc : (content.tokenLines.filter TranslationTable.isChannelLine).Perm
        (content'.tokenLines.filter TranslationTable.isChannelLine)) :
      Option.Rel ChannelRowsPermuted (some content) (some content') := .some ⟨heof, hd, hc⟩
  refine rel_ite (hchanged _ _ rfl ?_ ?_) (rel_ite (hchanged _ _ rfl ?_ ?_) (rel_ite (hsame _)
    (rel_ite (hchanged _ _ rfl ?_ ?_) (rel_ite (hsame _) (rel_ite (hsame _) (rel_ite (hsame _)
      (rel_ite (hsame _) (rel_ite (hsame _) .none))))))))
  all_goals decide +kernel

theorem loadTables_order_independent_reversed :
    ∃ runTables, loadTables (twoCatalogs List.reverse) ⟨"", [⟨"b", "/b"⟩, ⟨"a", "/a"⟩], []⟩ =
      .ok runTables := by
  have hload : (loadTables (twoCatalogs id) ⟨"", [⟨"a", "/a"⟩, ⟨"b", "/b"⟩], []⟩).isOk = true := by
    decide +kernel
  refine (loadTables_order_independent (twoCatalogs id) (twoCatalogs List.reverse)
    ⟨"", [⟨"a", "/a"⟩, ⟨"b", "/b"⟩], []⟩ ⟨"", [⟨"b", "/b"⟩, ⟨"a", "/a"⟩], []⟩
    (by decide +kernel) (rearranged_of_readsAs rfl readsAs_twoCatalogs)).1.mp ?_
  cases h : loadTables (twoCatalogs id) ⟨"", [⟨"a", "/a"⟩, ⟨"b", "/b"⟩], []⟩ with
  | ok runTables => exact ⟨runTables, rfl⟩
  | error message =>
    rw [h] at hload
    cases hload

end TranslationService

end JanaExtensions
