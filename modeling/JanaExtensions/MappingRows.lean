import JanaExtensions.TranslationService

/-! What the lines of a catalog, a manifest and a mapping file must be for the file to be
loaded. Line numbers and blank lines do not matter. -/

namespace JanaExtensions

open Failing IntervalTable

def nonBlank (rows : List (Nat × List String)) : List (List String) :=
  (rows.map Prod.snd).filter (· ≠ [])

/-- The tokens of the lines that have any. -/
def FileContent.tokenLines (content : FileContent) : List (List String) := nonBlank content.rows

theorem mem_tokenLines_iff {content : FileContent} {tokens : List String} :
    tokens ∈ content.tokenLines ↔ (∃ row ∈ content.rows, row.2 = tokens) ∧ tokens ≠ [] := by
  simp [FileContent.tokenLines, nonBlank]

theorem foldlM_nonBlank {σ : Type} {f : σ → Nat × List String → Except String σ}
    (hblank : ∀ s lineNumber, f s (lineNumber, []) = .ok s)
    (hline : ∀ s lineNumber tokens s', tokens ≠ [] →
      (f s (lineNumber, tokens) = .ok s' ↔ f s (0, tokens) = .ok s'))
    (rows : List (Nat × List String)) (s s' : σ) :
    rows.foldlM f s = .ok s' ↔
      (nonBlank rows).foldlM (fun s tokens => f s (0, tokens)) s = .ok s' := by
  induction rows generalizing s with
  | nil => rfl
  | cons row rows ih =>
    obtain ⟨lineNumber, tokens⟩ := row
    rw [foldlM_cons_ok]
    by_cases hempty : tokens = []
    · subst hempty
      simp only [hblank, Except.ok.injEq, exists_eq_left', ih]
      simp [nonBlank]
    · have hlines : nonBlank ((lineNumber, tokens) :: rows) = tokens :: nonBlank rows := by
        simp [nonBlank, hempty]
      rw [hlines, foldlM_cons_ok]
      simp only [hline _ _ _ _ hempty, ih]

theorem foldl_concat {α : Type} (xs ys : List α) :
    ys.foldl (fun xs y => xs ++ [y]) xs = xs ++ ys := by
  induction ys generalizing xs with
  | nil => simp
  | cons y ys ih => rw [List.foldl_cons, ih, List.append_assoc, List.singleton_append]

section Manifest

/-- The line of a manifest is the run range, which is not empty. -/
def DetectorMappingRunRange.IsLine (range : DetectorMappingRunRange) (tokens : List String) : Prop :=
  range.IsRow tokens ∧ range.runMin ≤ range.runMax

def DetectorMappingRunRange.Separate (a b : DetectorMappingRunRange) : Prop :=
  a.runMax < b.runMin ∨ b.runMax < a.runMin

theorem manifestRow_iff {path : String} {ranges ranges' : List DetectorMappingRunRange}
    {lineNumber : Nat} {tokens : List String} (hne : tokens ≠ []) :
    manifestRow path ranges (lineNumber, tokens) = .ok ranges' ↔
      ∃ range : DetectorMappingRunRange, range.IsLine tokens ∧ ranges' = ranges ++ [range] := by
  constructor
  · intro h
    rcases manifestRow_eq_ok h with ⟨hnil, -⟩ | ⟨range, hrow, hle, rfl⟩
    · exact absurd hnil hne
    · exact ⟨range, ⟨hrow, hle⟩, rfl⟩
  · intro hh
    obtain ⟨range, ⟨⟨first, last, rfl, hmin, hmax⟩, hle⟩, rfl⟩ := hh
    rw [manifestRow, parseRun_false_eq_ok.mpr hmin, bind_ok, parseRun_true_eq_ok.mpr hmax, bind_ok,
      if_neg (not_lt.mpr hle)]

theorem manifestRows_iff {path : String} {rows : List (Nat × List String)}
    {ranges : List DetectorMappingRunRange} :
    rows.foldlM (manifestRow path) [] = .ok ranges ↔
      List.Forall₂ (fun tokens range => DetectorMappingRunRange.IsLine range tokens)
        (nonBlank rows) ranges := by
  rw [foldlM_nonBlank (fun _ _ => rfl) fun s n tokens s' hne => by
    rw [manifestRow_iff hne, manifestRow_iff hne]]
  rw [foldlM_collect_iff (I := fun _ => True) (P := fun _ _ => True) (Q := fun _ _ => True)
    (R := fun tokens range => DetectorMappingRunRange.IsLine range tokens)
    (g := fun ranges range => ranges ++ [range]) trivial ?_ (by simp)]
  · simp only [foldl_concat, List.nil_append, implies_true, true_and,
      List.pairwise_of_forall (fun _ _ => trivial), exists_eq_right']
  · intro tokens htokens t t' _
    have hne : tokens ≠ [] := by simpa using (List.mem_filter.mp htokens).2
    simp [manifestRow_iff hne]

theorem not_overlapping_of_increasing {ranges : List DetectorMappingRunRange}
    (h : Increasing DetectorMappingRunRange.runMin DetectorMappingRunRange.runMax ranges) :
    overlapping ranges = false := by
  obtain ⟨-, h⟩ := h
  induction ranges with
  | nil => rfl
  | cons a ranges ih =>
    cases ranges with
    | nil => rfl
    | cons b ranges =>
      obtain ⟨ha, hrest⟩ := List.pairwise_cons.mp h
      have hb : ¬ b.runMin ≤ a.runMax := not_le.mpr (ha b (by simp))
      simp [overlapping, hb, ih hrest]

/-- Run ranges overlap nowhere, once they are sorted, exactly if no two of them have a run in
common. What the sort does with equal keys does not matter. -/
theorem overlapping_iff {ranges sorted : List DetectorMappingRunRange}
    (hle : ∀ range ∈ ranges, range.runMin ≤ range.runMax) (hperm : sorted.Perm ranges)
    (hsorted : sorted.Pairwise fun a b => a.runMin ≤ b.runMin) :
    overlapping sorted = false ↔ ranges.Pairwise DetectorMappingRunRange.Separate := by
  have hle' : ∀ range ∈ sorted, range.runMin ≤ range.runMax :=
    fun range hrange => hle range (hperm.mem_iff.mp hrange)
  rw [← hperm.pairwise_iff fun h => h.symm]
  constructor
  · intro hno
    have hinc := increasing_of_not_overlapping hle' (by simp [hno])
    exact hinc.disjoint.imp Or.inl
  · intro hseparate
    refine not_overlapping_of_increasing ⟨hle', ?_⟩
    refine (hsorted.and hseparate).imp_of_mem ?_
    intro a b _ hb hab
    rcases hab.2 with hlt | hlt
    · exact hlt
    · exact absurd (hab.1.trans (hle' b hb)) (not_le.mpr hlt)

theorem overlapping_sorted_iff {ranges : List DetectorMappingRunRange}
    (hle : ∀ range ∈ ranges, range.runMin ≤ range.runMax) :
    overlapping (ranges.insertionSort fun a b => a.runMin ≤ b.runMin) = false ↔
      ranges.Pairwise DetectorMappingRunRange.Separate :=
  overlapping_iff hle (List.perm_insertionSort _ _) (List.pairwise_insertionSort _ _)

theorem le_of_manifestLines {lines : List (List String)} {ranges : List DetectorMappingRunRange}
    (h : List.Forall₂ (fun tokens range => DetectorMappingRunRange.IsLine range tokens)
      lines ranges) : ∀ range ∈ ranges, range.runMin ≤ range.runMax := by
  induction h with
  | nil => simp
  | cons hline _ ih => exact List.forall_mem_cons.mpr ⟨hline.2, ih⟩

/-- The lines of a manifest are run ranges, at least one, and no two have a run in common. -/
def ManifestLines (lines : List (List String)) : Prop :=
  ∃ ranges, List.Forall₂ (fun tokens range => DetectorMappingRunRange.IsLine range tokens)
    lines ranges ∧ ranges ≠ [] ∧ ranges.Pairwise DetectorMappingRunRange.Separate

theorem loadDetectorMappingManifest_iff {fs : FileSystem} {path : String} :
    (∃ ranges, loadDetectorMappingManifest fs path = .ok ranges) ↔
      ∃ content, fs.read path = some content ∧ content.eof = true ∧
        ManifestLines content.tokenLines := by
  simp only [loadDetectorMappingManifest_ok_iff, manifestRows_iff]
  constructor
  · intro hh
    obtain ⟨_, content, ranges, hread, hlines, heof, hne, hno, -⟩ := hh
    have hle : ∀ range ∈ ranges, range.runMin ≤ range.runMax := le_of_manifestLines hlines
    exact ⟨content, hread, heof, ranges, hlines, hne,
      (overlapping_sorted_iff hle).mp (by simpa using hno)⟩
  · intro hh
    obtain ⟨content, hread, heof, ranges, hlines, hne, hseparate⟩ := hh
    have hle : ∀ range ∈ ranges, range.runMin ≤ range.runMax := le_of_manifestLines hlines
    exact ⟨_, content, ranges, hread, hlines, heof, hne,
      by simp [(overlapping_sorted_iff hle).mpr hseparate], rfl⟩

end Manifest

section Catalog

theorem catalogRow_iff {path : String} {entries entries' : List DetectorMappingCatalogEntry}
    {lineNumber : Nat} {tokens : List String} (hne : tokens ≠ []) :
    catalogRow path entries (lineNumber, tokens) = .ok entries' ↔
      ∃ entry : DetectorMappingCatalogEntry, tokens = [entry.detector, entry.manifestFile] ∧
        entry.detector ∉ entries.map DetectorMappingCatalogEntry.detector ∧
        entries' = entries ++ [entry] := by
  match tokens with
  | [] => exact absurd rfl hne
  | [detector, manifestFile] =>
    rw [catalogRow, ite_error_eq_ok, Except.ok.injEq]
    constructor
    · intro hh
      exact ⟨⟨detector, manifestFile⟩, rfl, hh.1, hh.2.symm⟩
    · intro hh
      obtain ⟨⟨d, m⟩, htokens, hnew, rfl⟩ := hh
      simp only [List.cons.injEq, and_true] at htokens
      obtain ⟨rfl, rfl⟩ := htokens
      exact ⟨hnew, rfl⟩
  | [_] => simp [catalogRow]
  | _ :: _ :: _ :: _ => simp [catalogRow]

theorem catalogRows_iff {path : String} {rows : List (Nat × List String)}
    {entries : List DetectorMappingCatalogEntry} :
    rows.foldlM (catalogRow path) [] = .ok entries ↔
      List.Forall₂ (fun tokens (entry : DetectorMappingCatalogEntry) =>
        tokens = [entry.detector, entry.manifestFile]) (nonBlank rows) entries ∧
      (entries.map DetectorMappingCatalogEntry.detector).Nodup := by
  rw [foldlM_nonBlank (fun _ _ => rfl) fun s n tokens s' hne => by
    rw [catalogRow_iff hne, catalogRow_iff hne]]
  rw [foldlM_collect_iff (I := fun _ => True)
    (P := fun entries (entry : DetectorMappingCatalogEntry) =>
      entry.detector ∉ entries.map DetectorMappingCatalogEntry.detector)
    (Q := fun a b => a.detector ≠ b.detector)
    (R := fun tokens entry => tokens = [entry.detector, entry.manifestFile])
    (g := fun entries entry => entries ++ [entry]) trivial ?_ ?_]
  · simp only [foldl_concat, List.nil_append, List.map_nil, List.not_mem_nil, not_false_eq_true,
      implies_true, true_and, List.Nodup, List.pairwise_map]
    constructor
    · intro hh
      obtain ⟨ys, hlines, hdifferent, rfl⟩ := hh
      exact ⟨hlines, hdifferent⟩
    · intro hh
      exact ⟨entries, hh.1, hh.2, rfl⟩
  · intro tokens htokens t t' _
    have hne : tokens ≠ [] := by simpa using (List.mem_filter.mp htokens).2
    exact catalogRow_iff hne
  · intro entries entry _
    refine ⟨trivial, ?_⟩
    intro other
    simp [not_or, eq_comm]

/-- The lines of a catalog name different detectors, at least one. -/
def CatalogLines (lines : List (List String)) : Prop :=
  ∃ entries, List.Forall₂ (fun tokens (entry : DetectorMappingCatalogEntry) =>
    tokens = [entry.detector, entry.manifestFile]) lines entries ∧ entries ≠ [] ∧
      (entries.map DetectorMappingCatalogEntry.detector).Nodup

theorem loadDetectorMappingCatalog_iff {fs : FileSystem} {path : String} :
    (∃ entries, loadDetectorMappingCatalog fs path = .ok entries) ↔
      ∃ content, fs.read path = some content ∧ content.eof = true ∧
        CatalogLines content.tokenLines := by
  simp only [loadDetectorMappingCatalog_ok_iff, catalogRows_iff]
  constructor
  · intro hh
    obtain ⟨_, content, entries, hread, ⟨hlines, hnodup⟩, heof, hne, -⟩ := hh
    exact ⟨content, hread, heof, entries, hlines, hne, hnodup⟩
  · intro hh
    obtain ⟨content, hread, heof, entries, hlines, hne, hnodup⟩ := hh
    exact ⟨_, content, entries, hread, ⟨hlines, hnodup⟩, heof, hne, rfl⟩

end Catalog

namespace TranslationTable

variable {path expectedDetector : String} {s s' : Loading} {lineNumber : Nat}

theorem channelRow_iff {tokens : List String} :
    channelRow path s lineNumber tokens = .ok s' ↔ s.detector ≠ "" ∧ s.fields ≠ [] ∧
      ∃ daq address, IsChannelRow s.detector s.fields tokens daq address ∧
        (s.loaded.insert daq address).2 = true ∧
        s' = { s with loaded := (s.loaded.insert daq address).1 } := by
  constructor
  · exact channelRow_eq_ok
  · intro hh
    obtain ⟨hd, hf, daq, address, hrow, hnew, rfl⟩ := hh
    obtain ⟨rocid, slot, channel, values, numbers, rfl, hr, hs, hc, hlength, hv, rfl⟩ := hrow
    have hnumbers : values.mapM (fun token =>
        parseInteger fromCharsInt32 token path lineNumber) = .ok numbers := by
      rw [mapM_eq_ok]
      rw [← List.forall₂_eq_eq_eq, List.forall₂_map_left_iff, List.forall₂_map_right_iff] at hv
      exact hv.imp fun token number hn => parseInteger_eq_ok.mpr hn
    have hdeclared : ¬ (s.detector = "" ∨ s.fields = []) := by simp [hd, hf]
    have hcount : ¬ (rocid :: slot :: channel :: values).length ≠ s.fields.length + 3 := by
      simp [hlength]
    rw [channelRow, if_neg hdeclared, if_neg hcount]
    refine bind_eq_ok.mpr ⟨daq.rocid, parseInteger_eq_ok.mpr hr, ?_⟩
    refine bind_eq_ok.mpr ⟨daq.slot, parseInteger_eq_ok.mpr hs, ?_⟩
    refine bind_eq_ok.mpr ⟨daq.channel, parseChannel_eq_ok.mpr hc, ?_⟩
    refine bind_eq_ok.mpr ⟨numbers, hnumbers, ?_⟩
    exact ite_error_eq_ok.mpr ⟨by simp [hnew], rfl⟩

theorem detectorRow_iff {rest : List String} :
    detectorRow path expectedDetector s lineNumber rest = .ok s' ↔ s.detector = "" ∧ s.fields = [] ∧
      ∃ detector, rest = [detector] ∧ (expectedDetector ≠ "" → detector = expectedDetector) ∧
        s' = { s with detector } := by
  match rest with
  | [detector] =>
    rw [detectorRow, ite_error_eq_ok, ite_error_eq_ok, Except.ok.injEq, eq_comm (b := s')]
    simp [and_assoc]
  | [] => simp [detectorRow]
  | _ :: _ :: _ => simp [detectorRow]

theorem fieldsRow_iff {names : List String} :
    fieldsRow path s lineNumber names = .ok s' ↔ s.detector ≠ "" ∧ s.fields = [] ∧ names ≠ [] ∧
      names.Nodup ∧ s' = { s with fields := names } := by
  rw [fieldsRow, ite_error_eq_ok, ite_error_eq_ok, Except.ok.injEq, eq_comm (b := s')]
  simp [and_assoc]

theorem mappingRow_lineNumber {tokens : List String} :
    mappingRow path expectedDetector s (lineNumber, tokens) = .ok s' ↔
      mappingRow path expectedDetector s (0, tokens) = .ok s' := by
  cases tokens with
  | nil => rfl
  | cons first rest =>
    rw [mappingRow, mappingRow]
    split
    · rw [detectorRow_iff, detectorRow_iff]
    · split
      · rw [fieldsRow_iff, fieldsRow_iff]
      · rw [channelRow_iff, channelRow_iff]

def Loading.add (s : Loading) (entry : DAQAddress × DetectorAddress) : Loading :=
  { s with loaded := (s.loaded.insert entry.1 entry.2).1 }

theorem mappingRow_declared_iff {tokens : List String} (hne : tokens ≠ [])
    (hd : s.detector ≠ "") (hf : s.fields ≠ []) :
    mappingRow path expectedDetector s (0, tokens) = .ok s' ↔
      ∃ entry : DAQAddress × DetectorAddress,
        IsChannelRow s.detector s.fields tokens entry.1 entry.2 ∧
        (s.loaded.insert entry.1 entry.2).2 = true ∧ s' = s.add entry := by
  cases tokens with
  | nil => exact absurd rfl hne
  | cons first rest =>
    rw [mappingRow, Prod.exists]
    by_cases hdetector : first = "detector"
    · have hnumber : fromCharsUInt32 first = none := hdetector ▸ by decide +kernel
      rw [if_pos hdetector, detectorRow_iff]
      simp [hd, not_isChannelRow hnumber]
    · rw [if_neg hdetector]
      by_cases hfields : first = "fields"
      · have hnumber : fromCharsUInt32 first = none := hfields ▸ by decide +kernel
        rw [if_pos hfields, fieldsRow_iff]
        simp [hf, not_isChannelRow hnumber]
      · rw [if_neg hfields, channelRow_iff]
        simp [hd, hf, Loading.add]

/-- After the two declarations, the lines have different addresses. -/
def ChannelLines (detector : String) (names : List String) (lines : List (List String)) : Prop :=
  ∃ entries, List.Forall₂ (fun tokens (entry : DAQAddress × DetectorAddress) =>
    IsChannelRow detector names tokens entry.1 entry.2) lines entries ∧
      (entries.map Prod.fst).Nodup

def MappingLines (expectedDetector : String) (lines : List (List String)) : Prop :=
  ∃ detector names channels, lines = ["detector", detector] :: ("fields" :: names) :: channels ∧
    (expectedDetector ≠ "" → detector = expectedDetector) ∧ names ≠ [] ∧ names.Nodup ∧
    ChannelLines detector names channels

section Lines

variable {lines : List (List String)}

theorem foldl_add_declared (entries : List (DAQAddress × DetectorAddress)) (s : Loading) :
    (entries.foldl Loading.add s).detector = s.detector ∧
      (entries.foldl Loading.add s).fields = s.fields := by
  induction entries generalizing s with
  | nil => exact ⟨rfl, rfl⟩
  | cons entry entries ih => exact ih (s.add entry)

def mappingLines (path expectedDetector : String) (s : Loading) (lines : List (List String)) :
    Except String Loading :=
  lines.foldlM (fun s tokens => mappingRow path expectedDetector s (0, tokens)) s

theorem mappingLines_declared_iff (hlines : ∀ tokens ∈ lines, tokens ≠ []) (hd : s.detector ≠ "")
    (hf : s.fields ≠ []) : mappingLines path expectedDetector s lines = .ok s' ↔
      ∃ entries : List (DAQAddress × DetectorAddress),
        List.Forall₂ (fun tokens entry => IsChannelRow s.detector s.fields tokens entry.1 entry.2)
          lines entries ∧
        (∀ entry ∈ entries, (s.loaded.insert entry.1 entry.2).2 = true) ∧
        entries.Pairwise (fun a b => a.1 ≠ b.1) ∧ s' = entries.foldl Loading.add s := by
  rw [mappingLines]
  refine foldlM_collect_iff
    (I := fun t : Loading => t.detector = s.detector ∧ t.fields = s.fields)
    (P := fun t (entry : DAQAddress × DetectorAddress) =>
      (t.loaded.insert entry.1 entry.2).2 = true) ⟨rfl, rfl⟩ ?_ ?_
  · intro tokens htokens t t' ht
    rw [mappingRow_declared_iff (hlines tokens htokens) (ht.1 ▸ hd) (ht.2 ▸ hf), ht.1, ht.2]
  · intro t entry ht
    refine ⟨ht, ?_⟩
    intro other
    exact insert_insert_iff

theorem channelLines_iff (path expectedDetector : String)
    (hlines : ∀ tokens ∈ lines, tokens ≠ []) (hd : s.detector ≠ "") (hf : s.fields ≠ [])
    (hempty : s.loaded = {}) :
    (∃ s', mappingLines path expectedDetector s lines = .ok s' ∧ s'.detector ≠ "" ∧
      s'.fields ≠ []) ↔ ChannelLines s.detector s.fields lines := by
  simp only [mappingLines_declared_iff hlines hd hf, ChannelLines, List.Nodup, List.pairwise_map]
  constructor
  · intro hh
    obtain ⟨s', ⟨entries, hrows, -, hdifferent, -⟩, -⟩ := hh
    exact ⟨entries, hrows, hdifferent⟩
  · intro hh
    obtain ⟨entries, hrows, hdifferent⟩ := hh
    obtain ⟨hdetector, hfields⟩ := foldl_add_declared entries s
    have hfresh : ∀ entry ∈ entries, (s.loaded.insert entry.1 entry.2).2 = true := by
      intro entry _
      rw [insert_eq_true_iff, hempty]
      rfl
    exact ⟨_, ⟨entries, hrows, hfresh, hdifferent, rfl⟩, hdetector ▸ hd, hfields ▸ hf⟩

theorem mappingLines_nil : mappingLines path expectedDetector s [] = .ok s' ↔ s' = s := by
  constructor
  · exact fun h => (Except.ok.inj h).symm
  · rintro rfl
    rfl

theorem mappingLines_cons {tokens : List String} :
    mappingLines path expectedDetector s (tokens :: lines) = .ok s' ↔
      ∃ t, mappingRow path expectedDetector s (0, tokens) = .ok t ∧
        mappingLines path expectedDetector t lines = .ok s' :=
  foldlM_cons_ok

theorem fieldsLines_iff (path expectedDetector : String) {detector : String}
    (hlines : ∀ tokens ∈ lines, tokens ≠ []) (hd : detector ≠ "") :
    (∃ s', mappingLines path expectedDetector { detector } lines = .ok s' ∧ s'.detector ≠ "" ∧
      s'.fields ≠ []) ↔ ∃ names channels, lines = ("fields" :: names) :: channels ∧ names ≠ [] ∧
        names.Nodup ∧ ChannelLines detector names channels := by
  cases lines with
  | nil => simp [mappingLines_nil]
  | cons tokens lines =>
    obtain ⟨htokens, hrest⟩ := List.forall_mem_cons.mp hlines
    simp only [mappingLines_cons]
    cases tokens with
    | nil => exact absurd rfl htokens
    | cons first rest =>
      rw [mappingRow]
      by_cases hdetector : first = "detector"
      · simp [hdetector, detectorRow_iff, hd]
      · rw [if_neg hdetector]
        by_cases hfields : first = "fields"
        · rw [if_pos hfields]
          simp only [fieldsRow_iff]
          constructor
          · intro hh
            obtain ⟨s', ⟨t, ⟨-, -, hne, hnodup, rfl⟩, h⟩, hdone⟩ := hh
            have hchannels :=
              (channelLines_iff path expectedDetector hrest hd hne rfl).mp ⟨s', h, hdone⟩
            exact ⟨rest, lines, by rw [hfields], hne, hnodup, hchannels⟩
          · intro hh
            obtain ⟨names, channels, heq, hne, hnodup, hchannels⟩ := hh
            simp only [List.cons.injEq] at heq
            obtain ⟨⟨-, rfl⟩, rfl⟩ := heq
            obtain ⟨s', h, hdone⟩ := (channelLines_iff path expectedDetector
              (s := { detector, fields := rest }) hrest hd hne rfl).mpr hchannels
            exact ⟨s', ⟨_, ⟨hd, trivial, hne, hnodup, rfl⟩, h⟩, hdone⟩
        · simp [hfields, channelRow_iff]

theorem mappingLines_iff (hlines : ∀ tokens ∈ lines, tokens ≠ [] ∧ ∀ token ∈ tokens, token ≠ "") :
    (∃ s', mappingLines path expectedDetector {} lines = .ok s' ∧ s'.detector ≠ "" ∧
      s'.fields ≠ []) ↔ MappingLines expectedDetector lines := by
  cases lines with
  | nil => simp [mappingLines_nil, MappingLines]
  | cons tokens lines =>
    obtain ⟨⟨htokens, hnames⟩, hrest⟩ := List.forall_mem_cons.mp hlines
    simp only [mappingLines_cons, MappingLines]
    cases tokens with
    | nil => exact absurd rfl htokens
    | cons first rest =>
      rw [mappingRow]
      by_cases hdetector : first = "detector"
      · rw [if_pos hdetector]
        simp only [detectorRow_iff]
        constructor
        · intro hh
          obtain ⟨s', ⟨t, ⟨-, -, detector, rfl, hexpected, rfl⟩, h⟩, hdone⟩ := hh
          have hd : detector ≠ "" := hnames detector (by simp)
          obtain ⟨names, channels, rfl, hfields⟩ :=
            (fieldsLines_iff path expectedDetector (fun t ht => (hrest t ht).1) hd).mp ⟨s', h, hdone⟩
          exact ⟨detector, names, channels, by rw [hdetector], hexpected, hfields⟩
        · intro hh
          obtain ⟨detector, names, channels, heq, hexpected, hfields⟩ := hh
          simp only [List.cons.injEq] at heq
          obtain ⟨⟨-, rfl⟩, rfl⟩ := heq
          have hd : detector ≠ "" := hnames detector (by simp)
          obtain ⟨s', h, hdone⟩ := (fieldsLines_iff path expectedDetector
            (fun t ht => (hrest t ht).1) hd).mpr ⟨names, channels, rfl, hfields⟩
          exact ⟨s', ⟨_, ⟨trivial, trivial, detector, rfl, hexpected, rfl⟩, h⟩, hdone⟩
      · rw [if_neg hdetector]
        by_cases hfields : first = "fields"
        · simp [hfields, fieldsRow_iff]
        · simp [hfields, hdetector, channelRow_iff]

theorem mappingRows_iff (path : String) {content : FileContent} :
    (∃ s', content.rows.foldlM (mappingRow path expectedDetector) {} = .ok s' ∧ s'.detector ≠ "" ∧
      s'.fields ≠ []) ↔ MappingLines expectedDetector content.tokenLines := by
  have hlines : ∀ tokens ∈ content.tokenLines, tokens ≠ [] ∧ ∀ token ∈ tokens, token ≠ "" := by
    intro tokens htokens
    obtain ⟨⟨row, hrow, rfl⟩, hne⟩ := mem_tokenLines_iff.mp htokens
    exact ⟨hne, fun token htoken => ne_empty_of_mem_rows hrow htoken⟩
  have hrows (s' : Loading) := foldlM_nonBlank (f := mappingRow path expectedDetector)
    (fun _ _ => rfl) (fun _ _ _ _ _ => mappingRow_lineNumber) content.rows {} s'
  simp only [hrows]
  exact mappingLines_iff hlines

end Lines

end TranslationTable

end JanaExtensions
