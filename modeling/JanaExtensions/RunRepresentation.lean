import JanaExtensions.RunSelection

/-! The loaded run tables are a canonical form of the configuration: run ranges that touch
differ in their tables, and runs share a table exactly if they select the same files. -/

namespace JanaExtensions.TranslationService

open Failing IntervalTable

section Coalescing

/-- No run range goes on directly behind another one with the same table. -/
def Coalesced (runTables : List RunRangeTable) : Prop :=
  ∀ t ∈ runTables, ∀ t' ∈ runTables, t.runMax.toNat + 1 = t'.runMin.toNat →
    t.table.address ≠ t'.table.address

theorem not_touches {a b : UInt64} (h : b ≤ a) : a.toNat + 1 ≠ b.toNat := by
  have := UInt64.le_iff_toNat_le.mp h
  omega

theorem touches_iff {a b : UInt64} (ha : a ≠ maxValue) : a + 1 = b ↔ a.toNat + 1 = b.toNat := by
  have hlt : a.toNat < 18446744073709551615 := by
    have hle := UInt64.le_iff_toNat_le.mp (le_maxValue a)
    have hne : a.toNat ≠ maxValue.toNat := fun h => ha (UInt64.toNat.inj h)
    simp [maxValue] at hle hne
    omega
  rw [← UInt64.toNat_inj, UInt64.toNat_add]
  simp
  omega

theorem ne_maxValue_of_touches {a b : UInt64} (h : a.toNat + 1 = b.toNat) : a ≠ maxValue := by
  rintro rfl
  have hb := b.toNat_lt
  simp [maxValue] at h
  omega

variable {runTables : List RunRangeTable} {runMin runMax : UInt64} {table : SharedTable}

theorem Coalesced.push (h : Coalesced runTables) (hle : runMin ≤ runMax)
    (hordered : Ordered runTables) (hbefore : ∀ t ∈ runTables, t.runMax < runMin)
    (hfresh : ∀ t ∈ runTables, t.runMax.toNat + 1 = runMin.toNat →
      t.table.address ≠ table.address) :
    Coalesced (runTables ++ [⟨runMin, runMax, table⟩]) := by
  intro t ht t' ht' htouch
  rcases List.mem_append.mp ht with ht | ht <;> rcases List.mem_append.mp ht' with ht' | ht'
  · exact h t ht t' ht' htouch
  · obtain rfl := List.mem_singleton.mp ht'
    exact hfresh t ht htouch
  · obtain rfl := List.mem_singleton.mp ht
    have hstart : t'.runMin ≤ runMax :=
      ((hordered.nonempty t' ht').trans (hbefore t' ht').le).trans hle
    exact absurd htouch (not_touches hstart)
  · obtain rfl := List.mem_singleton.mp ht
    obtain rfl := List.mem_singleton.mp ht'
    exact absurd htouch (not_touches hle)

theorem Coalesced.extend {init : List RunRangeTable} {back : RunRangeTable}
    (h : Coalesced (init ++ [back])) (hordered : Ordered (init ++ [back]))
    (hend : back.runMax ≤ runMax) : Coalesced (init ++ [{ back with runMax }]) := by
  have hback : back.runMin ≤ back.runMax := hordered.nonempty back (by simp)
  intro t ht t' ht' htouch
  rcases List.mem_append.mp ht with ht | ht <;> rcases List.mem_append.mp ht' with ht' | ht'
  · exact h t (by simp [ht]) t' (by simp [ht']) htouch
  · obtain rfl := List.mem_singleton.mp ht'
    exact h t (by simp [ht]) back (by simp) htouch
  · obtain rfl := List.mem_singleton.mp ht
    have hbefore : t'.runMax < back.runMin :=
      (List.pairwise_append.mp hordered.disjoint).2.2 t' ht' back (by simp)
    have hstart : t'.runMin ≤ runMax :=
      (hordered.nonempty t' (by simp [ht'])).trans (hbefore.le.trans (hback.trans hend))
    exact absurd htouch (not_touches hstart)
  · obtain rfl := List.mem_singleton.mp ht
    obtain rfl := List.mem_singleton.mp ht'
    exact absurd htouch (not_touches (hback.trans hend))

/-- Comparing with the last run range is enough, since the others end before it begins. -/
theorem Coalesced.appendRunRange (h : Coalesced runTables) (hle : runMin ≤ runMax)
    (hordered : Ordered runTables) (hbefore : ∀ t ∈ runTables, t.runMax < runMin) :
    Coalesced (appendRunRange runTables runMin runMax table) := by
  rw [TranslationService.appendRunRange]
  split
  · rename_i back hback
    obtain ⟨init, rfl⟩ := List.getLast?_eq_some_iff.mp hback
    split
    · rw [List.dropLast_concat]
      exact h.extend hordered ((hbefore back (by simp)).le.trans hle)
    · rename_i hpush
      refine h.push hle hordered hbefore fun t ht htouch haddress => hpush ?_
      rcases List.mem_append.mp ht with ht | ht
      · have hlt : t.runMax < back.runMin :=
          (List.pairwise_append.mp hordered.disjoint).2.2 t ht back (by simp)
        have hgap : t.runMax < back.runMax := hlt.trans_le (hordered.nonempty back (by simp))
        have hbound := UInt64.lt_iff_toNat_lt.mp hgap
        have hend := UInt64.lt_iff_toNat_lt.mp (hbefore back (by simp))
        omega
      · obtain rfl := List.mem_singleton.mp ht
        have hmax := ne_maxValue_of_touches htouch
        exact ⟨hmax, (touches_iff hmax).mpr htouch, haddress⟩
  · rename_i hnone
    obtain rfl := List.getLast?_eq_none_iff.mp hnone
    exact h.push hle hordered hbefore (by simp)

end Coalescing

section Sharing

variable {fs : FileSystem} {manifests : List DetectorManifest}

/-- Tables of different files have different addresses. -/
def Building.Separate (s : Building) : Prop :=
  ∀ files files' table table', s.tables.find files = some table →
    s.tables.find files' = some table' → table.address = table'.address → files = files'

theorem tableOf_separate {files : List MappingFile} {s s' : Building} {table : SharedTable}
    (h : tableOf fs files s = .ok (table, s')) (hs : Sharing fs s) (hsep : s.Separate) :
    s'.Separate := by
  rw [tableOf] at h
  split at h
  · obtain ⟨rfl, rfl⟩ := Prod.mk.inj (Except.ok.inj h)
    exact hsep
  · obtain ⟨loaded, -, h⟩ := bind_eq_ok.mp h
    obtain ⟨rfl, rfl⟩ := Prod.mk.inj (Except.ok.inj h)
    intro f f' t t' ht ht' haddress
    simp only [OrderedMap.find_insert] at ht ht'
    split at ht <;> split at ht'
    · simp_all
    · obtain rfl := Option.some.inj ht
      exact absurd haddress (hs.fresh f' t' ht').ne'
    · obtain rfl := Option.some.inj ht'
      exact absurd haddress (hs.fresh f t ht).ne
    · exact hsep f f' t t' ht ht' haddress

structure Canonical (fs : FileSystem) (manifests : List DetectorManifest)
    (done : List (UInt64 × UInt64)) (s : Building) : Prop where
  built : Built fs manifests done s
  coalesced : Coalesced s.runTables
  separate : s.Separate

theorem Canonical.addRunRange {done : List (UInt64 × UInt64)} {segment : UInt64 × UInt64}
    {s s' : Building} (h : Canonical fs manifests done s) (hle : segment.1 ≤ segment.2)
    (hdone : ∀ d ∈ done, d.2 < segment.1) (hadd : addRunRange fs manifests s segment = .ok s') :
    Canonical fs manifests (done ++ [segment]) s' := by
  have hbuilt := addRunRange_built h.built hle hdone hadd
  obtain ⟨files, -, hadd⟩ := bind_eq_ok.mp hadd
  split at hadd
  · obtain rfl := Except.ok.inj hadd
    exact ⟨hbuilt, h.coalesced, h.separate⟩
  · obtain ⟨⟨table, s''⟩, htable, hadd⟩ := bind_eq_ok.mp hadd
    obtain rfl := Except.ok.inj hadd
    obtain ⟨-, hruns, -, -⟩ := tableOf_eq_ok htable h.built.sharing
    have hseparate : s''.Separate := tableOf_separate htable h.built.sharing h.separate
    refine ⟨hbuilt, ?_, hseparate⟩
    have hcoalesced : Coalesced (appendRunRange s.runTables segment.1 segment.2 table) :=
      h.coalesced.appendRunRange hle h.built.ordered fun t ht => h.built.before hdone ht
    rw [← hruns] at hcoalesced
    exact hcoalesced

theorem canonical_of_foldlM {cuts : List UInt64} {s : Building} (hcuts : cuts.Pairwise (· < ·))
    (h : (segments cuts).foldlM (addRunRange fs manifests) {} = .ok s) :
    Canonical fs manifests (segments cuts) s := by
  have hincreasing := segments_increasing hcuts
  refine foldlM_invariant (I := Canonical fs manifests) ?_ ?_ h
  · have hbuilt : Built fs manifests (segments []) {} := built_of_foldlM .nil rfl
    refine ⟨hbuilt, ?_, ?_⟩
    · intro t ht
      cases ht
    · intro files files' table table' hfind
      simp at hfind
  · intro pre segment post t t' hsplit ht hadd
    have hdisjoint := hincreasing.disjoint
    rw [hsplit] at hdisjoint
    exact ht.addRunRange (hincreasing.nonempty segment (by simp [hsplit]))
      (fun d hd => (List.pairwise_append.mp hdisjoint).2.2 d hd segment (by simp)) hadd

theorem findRange_segment {s : Manifests} (hcut : s.Cut)
    (hinc : AllIncreasing s.detectorManifests) {segment : UInt64 × UInt64}
    (hsegment : segment ∈ segments s.boundaries.keys) {runNumber : UInt64}
    (hrun : segment.1 ≤ runNumber ∧ runNumber ≤ segment.2) {manifest : DetectorManifest}
    (hmem : manifest ∈ s.detectorManifests) :
    findRange manifest.ranges runNumber = findRange manifest.ranges segment.1 := by
  ext range
  rw [findRange_eq_some_iff hinc hmem, findRange_eq_some_iff hinc hmem]
  have hactive : Active s.detectorManifests runNumber manifest range ↔
      Active s.detectorManifests segment.1 manifest range := active_segment_iff hcut hsegment hrun
  constructor
  · intro hh
    obtain ⟨hr, hle, hge⟩ := hh
    have hstart := hactive.mp ⟨hmem, hr, hle, hge⟩
    exact ⟨hr, hstart.le_run, hstart.run_le⟩
  · intro hh
    obtain ⟨hr, hle, hge⟩ := hh
    have hthere := hactive.mpr ⟨hmem, hr, hle, hge⟩
    exact ⟨hr, hthere.le_run, hthere.run_le⟩

/-- Within a segment every run selects the same files, in the same order. -/
theorem selectMappingFiles_segment {s : Manifests} (hcut : s.Cut)
    (hinc : AllIncreasing s.detectorManifests) {segment : UInt64 × UInt64}
    (hsegment : segment ∈ segments s.boundaries.keys) {runNumber : UInt64}
    (hrun : segment.1 ≤ runNumber ∧ runNumber ≤ segment.2) :
    selectMappingFiles fs s.detectorManifests runNumber =
      selectMappingFiles fs s.detectorManifests segment.1 := by
  refine foldlM_congr fun files manifest hmem => ?_
  rw [addMappingFile, addMappingFile, findRange_segment hcut hinc hsegment hrun hmem]

end Sharing

section Instances

variable {fs : FileSystem} {c : Configuration} {runTables : List RunRangeTable}

/-- The mapping files that the manifests of a configuration select for a run number. -/
def selectedFiles (fs : FileSystem) (c : Configuration) (runNumber : UInt64) :
    Except String (List MappingFile) := do
  let manifests ← c.providers.foldlM (loadCatalog fs) {}
  selectMappingFiles fs manifests.detectorManifests runNumber

/-- The files of the run tables: every covered run selects some, and its table is theirs. -/
structure Files (fs : FileSystem) (c : Configuration) (runTables : List RunRangeTable)
    (tables : OrderedMap (List MappingFile) SharedTable) : Prop where
  ordered : Ordered runTables
  coalesced : Coalesced runTables
  separate : ∀ files files' table table', tables.find files = some table →
    tables.find files' = some table' → table.address = table'.address → files = files'
  selected : ∀ runNumber table, Covers runTables runNumber table → ∃ files,
    selectedFiles fs c runNumber = .ok files ∧ tables.find files = some table

theorem loadTables_files (hproviders : c.providers ≠ []) (h : loadTables fs c = .ok runTables) :
    ∃ tables, Files fs c runTables tables := by
  rw [loadTables, if_neg hproviders] at h
  obtain ⟨manifests, hmanifests, h⟩ := bind_eq_ok.mp h
  obtain ⟨s, hs, h⟩ := bind_eq_ok.mp h
  obtain ⟨-, h⟩ := ite_error_eq_ok.mp h
  obtain rfl := Except.ok.inj h
  have hcanonical := canonical_of_foldlM manifests.boundaries.keys_sorted hs
  refine ⟨s.tables, hcanonical.built.ordered, hcanonical.coalesced, hcanonical.separate, ?_⟩
  intro runNumber table hcovers
  obtain ⟨segment, hsegment, hlo, hhi, files, hfiles, -, hfind⟩ :=
    (hcanonical.built.covers runNumber table).mp hcovers
  refine ⟨files, ?_, hfind⟩
  rw [selectedFiles, hmanifests, bind_ok, selectMappingFiles_segment (loadCatalogs_eq_ok hmanifests).cut
    (allIncreasing_of_loadCatalogs hmanifests) hsegment ⟨hlo, hhi⟩]
  exact hfiles

theorem Files.address_eq_iff {tables : OrderedMap (List MappingFile) SharedTable}
    (h : Files fs c runTables tables) {r r' : UInt64} {table table' : SharedTable}
    (hr : Covers runTables r table) (hr' : Covers runTables r' table') :
    ∃ files files', selectedFiles fs c r = .ok files ∧ selectedFiles fs c r' = .ok files' ∧
      (table.address = table'.address ↔ files = files') := by
  obtain ⟨files, hfiles, hfind⟩ := h.selected r table hr
  obtain ⟨files', hfiles', hfind'⟩ := h.selected r' table' hr'
  refine ⟨files, files', hfiles, hfiles', h.separate _ _ _ _ hfind hfind', ?_⟩
  rintro rfl
  rw [Option.some.inj (hfind.symm.trans hfind')]

theorem answer_of_covers (hordered : Ordered runTables) {runNumber : UInt64} {table : SharedTable}
    (h : Covers runTables runNumber table) : answer runTables runNumber = .ok table := by
  obtain ⟨t, ht, hlo, hhi, rfl⟩ := h
  rw [answer, (findRunTable_eq_some_iff hordered).mpr ⟨ht, hlo, hhi⟩]

end Instances

/-- After a successful load the run ranges are nonempty, sorted and disjoint, those that
touch have different tables, and for covered runs `getTable` returns the same table exactly
if the same list of files is selected for them. -/
theorem loadTables_canonical (fs : FileSystem) (c : Configuration) (hproviders : c.providers ≠ [])
    (runTables : List RunRangeTable) (h : loadTables fs c = .ok runTables) :
    Ordered runTables ∧ Coalesced runTables ∧
      ∀ r r' table table', Covers runTables r table → Covers runTables r' table' →
        (∀ earlier, (Service.getTable fs
          (Service.afterCalls fs { configuration := c } earlier) r).1 = .ok table) ∧
        (∀ earlier, (Service.getTable fs
          (Service.afterCalls fs { configuration := c } earlier) r').1 = .ok table') ∧
        ∃ files files', selectedFiles fs c r = .ok files ∧ selectedFiles fs c r' = .ok files' ∧
          (table.address = table'.address ↔ files = files') := by
  obtain ⟨tables, hfiles⟩ := loadTables_files hproviders h
  refine ⟨hfiles.ordered, hfiles.coalesced, ?_⟩
  intro r r' table table' hr hr'
  refine ⟨fun earlier => ?_, fun earlier => ?_, hfiles.address_eq_iff hr hr'⟩
  · rw [getTable_afterCalls h, answer_of_covers hfiles.ordered hr]
  · rw [getTable_afterCalls h, answer_of_covers hfiles.ordered hr']

/-- One detector with the same mapping file on both sides of a gap. -/
def gapDetector : FileSystem where
  read path :=
    if path = "/maps/manifest.map" then some ⟨"BCAL bcal/manifest.map\n", true⟩
    else if path = "/maps/bcal/manifest.map" then
      some ⟨"# runs\n5 6 bcal.map\n8 max bcal.map\n", true⟩
    else if path = "/maps/bcal/bcal.map" then
      some ⟨"detector BCAL\nfields module end\n2 4 none 7 -1\n", true⟩
    else none
  weaklyCanonical path := .ok path

def gapTable : SharedTable :=
  ⟨0, ⟨OrderedMap.insert ∅ ⟨2, 4, 0xFFFFFFFF⟩ ⟨"BCAL", [("module", 7), ("end", -1)]⟩⟩⟩

theorem loadTables_canonical_gap : ∃ files files',
    selectedFiles gapDetector ⟨"/maps", [], []⟩ 5 = .ok files ∧
      selectedFiles gapDetector ⟨"/maps", [], []⟩ 9 = .ok files' ∧
      (gapTable.address = gapTable.address ↔ files = files') :=
  ((loadTables_canonical gapDetector ⟨"/maps", [], []⟩ (by decide +kernel)
    [⟨5, 6, gapTable⟩, ⟨8, maxValue, gapTable⟩] (by decide +kernel)).2.2 5 9 gapTable gapTable
    ⟨⟨5, 6, gapTable⟩, by simp, by decide, by decide, rfl⟩
    ⟨⟨8, maxValue, gapTable⟩, by simp, by decide, by decide, rfl⟩).2.2

end JanaExtensions.TranslationService
