import JanaExtensions.MappingGrammar

/-! Which texts are manifests, and what the run ranges of a manifest are: the rows of the text
in the order of the runs, whatever their order in the text. -/

namespace JanaExtensions

open Failing IntervalTable RelatedLists

def DetectorMappingRunRange.Contains (range : DetectorMappingRunRange) (runNumber : UInt64) :
    Prop :=
  range.runMin ≤ runNumber ∧ runNumber ≤ range.runMax

/-- The tokens of a line are the run range. -/
def DetectorMappingRunRange.IsText (range : DetectorMappingRunRange) (tokens : List String) :
    Prop :=
  ∃ first last, tokens = [first, last, range.mappingFile] ∧ IsDecimalUInt64 first range.runMin ∧
    (IsDecimalUInt64 last range.runMax ∨ last = "max" ∧ range.runMax = maxValue)

/-- What a manifest can say: run ranges, at least one, of which none is empty and no two have a
run in common. -/
structure Manifest where
  ranges : List DetectorMappingRunRange
  ranges_ne_nil : ranges ≠ []
  runMin_le_runMax : ∀ range ∈ ranges, range.runMin ≤ range.runMax
  disjoint : ranges.Pairwise fun a b => ∀ runNumber, ¬ (a.Contains runNumber ∧ b.Contains runNumber)

def Manifest.IsText (m : Manifest) (lines : List (List String)) : Prop :=
  List.Forall₂ (fun tokens range => DetectorMappingRunRange.IsText range tokens) lines m.ranges

theorem not_isDecimalUInt64_max {runNumber : UInt64} : ¬ IsDecimalUInt64 "max" runNumber := by
  have hnone : fromCharsUInt64 "max" = none := by decide +kernel
  rw [← fromCharsUInt64_eq_some, hnone]
  exact fun h => nomatch h

theorem isRow_iff_isText {range : DetectorMappingRunRange} {tokens : List String} :
    range.IsRow tokens ↔ range.IsText tokens := by
  simp only [DetectorMappingRunRange.IsRow, DetectorMappingRunRange.IsText, IsRunMax,
    fromCharsUInt64_eq_some]
  refine exists_congr fun first => exists_congr fun last => and_congr_right fun _ =>
    and_congr_right fun _ => ?_
  constructor
  · rintro (hmax | ⟨-, hlast⟩)
    · exact .inr hmax
    · exact .inl hlast
  · rintro (hlast | hmax)
    · refine .inr ⟨?_, hlast⟩
      rintro rfl
      exact not_isDecimalUInt64_max hlast
    · exact .inl hmax

theorem forall₂_isLine_iff {lines : List (List String)} {ranges : List DetectorMappingRunRange} :
    List.Forall₂ (fun tokens range => DetectorMappingRunRange.IsLine range tokens) lines ranges ↔
      List.Forall₂ (fun tokens range => DetectorMappingRunRange.IsText range tokens) lines ranges ∧
        ∀ range ∈ ranges, range.runMin ≤ range.runMax := by
  simp only [DetectorMappingRunRange.IsLine, isRow_iff_isText]
  constructor
  · intro h
    refine ⟨h.imp fun _ _ hline => hline.1, fun range hrange => ?_⟩
    obtain ⟨_, -, -, hle⟩ := exists_of_forall₂_mem_right h hrange
    exact hle
  · rintro ⟨h, hle⟩
    have hflip : List.Forall₂ DetectorMappingRunRange.IsText ranges lines := h.flip
    exact (forall₂_of_mem hflip fun range hrange _ hline => ⟨hline, hle range hrange⟩).flip

theorem pairwise_separate_iff {ranges : List DetectorMappingRunRange}
    (hle : ∀ range ∈ ranges, range.runMin ≤ range.runMax) :
    ranges.Pairwise DetectorMappingRunRange.Separate ↔
      ranges.Pairwise fun a b => ∀ runNumber, ¬ (a.Contains runNumber ∧ b.Contains runNumber) := by
  refine List.Pairwise.iff_of_mem fun {a b} ha hb => ?_
  exact separate_iff (hle a ha) (hle b hb)

theorem manifestLines_iff_manifest {lines : List (List String)} :
    ManifestLines lines ↔ ∃ m : Manifest, m.IsText lines := by
  simp only [ManifestLines, forall₂_isLine_iff]
  constructor
  · rintro ⟨ranges, ⟨hlines, hle⟩, hne, hseparate⟩
    exact ⟨⟨ranges, hne, hle, (pairwise_separate_iff hle).mp hseparate⟩, hlines⟩
  · rintro ⟨m, hm⟩
    exact ⟨m.ranges, ⟨hm, m.runMin_le_runMax⟩, m.ranges_ne_nil,
      (pairwise_separate_iff m.runMin_le_runMax).mpr m.disjoint⟩

theorem Manifest.IsText.ranges_eq {m : Manifest} {lines : List (List String)}
    {ranges : List DetectorMappingRunRange} (hm : m.IsText lines)
    (hlines : List.Forall₂ (fun tokens range => DetectorMappingRunRange.IsLine range tokens)
      lines ranges) : ranges = m.ranges := by
  have hunique : Relator.RightUnique fun tokens range =>
      DetectorMappingRunRange.IsText range tokens := fun _ _ _ ha hb =>
    isRow_unique (isRow_iff_isText.mpr ha) (isRow_iff_isText.mpr hb)
  exact hunique.forall₂ (forall₂_isLine_iff.mp hlines).1 hm

section Load

variable {fs : FileSystem} {path : String} {ranges : List DetectorMappingRunRange}
  {content : FileContent} {m : Manifest}

theorem perm_of_loadDetectorMappingManifest (h : loadDetectorMappingManifest fs path = .ok ranges)
    (hread : fs.read path = some content) (hm : m.IsText content.tokenLines) :
    ranges.Perm m.ranges := by
  obtain ⟨content', unsorted, hread', hrows, -, -, -, rfl⟩ :=
    loadDetectorMappingManifest_ok_iff.mp h
  obtain rfl := Option.some.inj (hread.symm.trans hread')
  rw [← hm.ranges_eq (manifestRows_iff.mp hrows)]
  exact List.perm_insertionSort _ _

theorem eq_of_loadDetectorMappingManifest (h : loadDetectorMappingManifest fs path = .ok ranges)
    (hread : fs.read path = some content) (hm : m.IsText content.tokenLines)
    {sorted : List DetectorMappingRunRange} (hperm : sorted.Perm m.ranges)
    (hsorted : sorted.Pairwise fun a b => a.runMin ≤ b.runMin) : sorted = ranges :=
  (loadDetectorMappingManifest_eq_ok h).2.eq_of_perm
    (hperm.trans (perm_of_loadDetectorMappingManifest h hread hm).symm) hsorted

theorem Manifest.IsText.perm {lines lines' : List (List String)} (hm : m.IsText lines)
    (hperm : lines'.Perm lines) : ∃ m' : Manifest, m'.IsText lines' ∧ m'.ranges.Perm m.ranges := by
  obtain ⟨ranges, hlines, hranges⟩ := List.perm_comp_forall₂ hperm hm
  have hsymm : ∀ {a b : DetectorMappingRunRange},
      (∀ runNumber, ¬ (a.Contains runNumber ∧ b.Contains runNumber)) →
        ∀ runNumber, ¬ (b.Contains runNumber ∧ a.Contains runNumber) :=
    fun hab runNumber hboth => hab runNumber hboth.symm
  refine ⟨⟨ranges, ?_, ?_, (hranges.pairwise_iff hsymm).mpr m.disjoint⟩, hlines, hranges⟩
  · rintro rfl
    exact m.ranges_ne_nil (List.nil_perm.mp hranges)
  · exact fun range hrange => m.runMin_le_runMax range (hranges.mem_iff.mp hrange)

theorem exists_loadDetectorMappingManifest_iff :
    (∃ ranges, loadDetectorMappingManifest fs path = .ok ranges) ↔
      ∃ content, fs.read path = some content ∧ content.eof = true ∧
        ∃ m : Manifest, m.IsText content.tokenLines := by
  simp only [loadDetectorMappingManifest_iff, manifestLines_iff_manifest]

/-- The order of the rows makes no difference. -/
theorem loadDetectorMappingManifest_perm (h : loadDetectorMappingManifest fs path = .ok ranges)
    (hread : fs.read path = some content) (hm : m.IsText content.tokenLines) {fs' : FileSystem}
    {path' : String} {content' : FileContent} (hread' : fs'.read path' = some content')
    (heof : content'.eof = true) (hperm : content'.tokenLines.Perm content.tokenLines) :
    loadDetectorMappingManifest fs' path' = .ok ranges := by
  obtain ⟨m', hm', hranges⟩ := hm.perm hperm
  obtain ⟨ranges', h'⟩ :=
    exists_loadDetectorMappingManifest_iff.mpr ⟨content', hread', heof, m', hm'⟩
  have hperm' := (perm_of_loadDetectorMappingManifest h' hread' hm').trans hranges
  have hsorted : ranges'.Pairwise fun a b => a.runMin ≤ b.runMin :=
    (loadDetectorMappingManifest_eq_ok h').2.pairwise_lt.imp le_of_lt
  rw [h', eq_of_loadDetectorMappingManifest h hread hm hperm' hsorted]

/-- A manifest is accepted exactly if it is lawful. The result is then its ranges in the order of
the runs, for any order of the rows and any sort, and each run is found in the range that has it. -/
theorem loadDetectorMappingManifest_iff_manifest (fs : FileSystem) (path : String) :
    ((∃ ranges, loadDetectorMappingManifest fs path = .ok ranges) ↔
      ∃ content, fs.read path = some content ∧ content.eof = true ∧
        ∃ m : Manifest, m.IsText content.tokenLines) ∧
      ∀ ranges content m, loadDetectorMappingManifest fs path = .ok ranges →
        fs.read path = some content → Manifest.IsText m content.tokenLines →
          ranges.Perm m.ranges ∧ ranges.Pairwise (fun a b => a.runMin < b.runMin) ∧
          (∀ sorted : List DetectorMappingRunRange, sorted.Perm m.ranges →
            sorted.Pairwise (fun a b => a.runMin ≤ b.runMin) → sorted = ranges) ∧
          (∀ (fs' : FileSystem) (path' : String) (content' : FileContent),
            fs'.read path' = some content' → content'.eof = true →
            content'.tokenLines.Perm content.tokenLines →
            loadDetectorMappingManifest fs' path' = .ok ranges) ∧
          ∀ runNumber,
            (∀ range, TranslationService.findRange ranges runNumber = some range ↔
              range ∈ m.ranges ∧ range.Contains runNumber) ∧
            (TranslationService.findRange ranges runNumber = none ↔
              ∀ range ∈ m.ranges, ¬ range.Contains runNumber) := by
  refine ⟨exists_loadDetectorMappingManifest_iff, ?_⟩
  intro ranges content m h hread hm
  have hinc := (loadDetectorMappingManifest_eq_ok h).2
  have hperm := perm_of_loadDetectorMappingManifest h hread hm
  have hfind : ∀ runNumber range, TranslationService.findRange ranges runNumber = some range ↔
      range ∈ m.ranges ∧ range.Contains runNumber := by
    intro runNumber range
    rw [TranslationService.findRange, search_eq_some_iff hinc, hperm.mem_iff]
    rfl
  refine ⟨hperm, hinc.pairwise_lt, ?_, ?_, ?_⟩
  · exact fun sorted => eq_of_loadDetectorMappingManifest h hread hm
  · exact fun fs' path' content' => loadDetectorMappingManifest_perm h hread hm
  · intro runNumber
    refine ⟨hfind runNumber, ?_⟩
    rw [Option.eq_none_iff_forall_ne_some]
    exact forall_congr' fun range => by rw [ne_eq, hfind, not_and]

end Load

end JanaExtensions
