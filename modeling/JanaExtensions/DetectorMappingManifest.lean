import JanaExtensions.Filesystem
import JanaExtensions.IntervalTable
import Mathlib.Data.List.Sort
import Mathlib.Data.String.Basic

/-! The catalogs of detectors, and the manifests with the run ranges of a detector. -/

namespace JanaExtensions

open Failing IntervalTable

structure DetectorMappingRunRange where
  runMin : UInt64
  runMax : UInt64
  mappingFile : String
  deriving DecidableEq, Repr

structure DetectorMappingCatalogEntry where
  detector : String
  manifestFile : String
  deriving DecidableEq, Repr

def manifestError (path : String) (lineNumber : Nat) (message : String) : String :=
  "Invalid detector mapping manifest " ++ path ++ ":" ++ toString lineNumber ++ ": " ++ message

def catalogError (path : String) (lineNumber : Nat) (message : String) : String :=
  "Invalid detector mapping catalog " ++ path ++ ":" ++ toString lineNumber ++ ": " ++ message

def parseRun (token path : String) (lineNumber : Nat) (allowMax : Bool) : Except String UInt64 :=
  if allowMax ∧ token = "max" then .ok maxValue
  else
    match fromCharsUInt64 token with
    | some run => .ok run
    | none => .error (manifestError path lineNumber
        "run bounds must be unsigned integers; run_max may also be 'max'")

def manifestRow (path : String) (ranges : List DetectorMappingRunRange) :
    Nat × List String → Except String (List DetectorMappingRunRange)
  | (_, []) => .ok ranges
  | (lineNumber, [first, last, mappingFile]) => do
    let runMin ← parseRun first path lineNumber false
    let runMax ← parseRun last path lineNumber true
    if runMin > runMax then .error (manifestError path lineNumber "run_min exceeds run_max")
    else .ok (ranges ++ [⟨runMin, runMax, mappingFile⟩])
  | (lineNumber, _) =>
    .error (manifestError path lineNumber "expected run_min run_max mapping_file")

/-- Some range starts at or before the end of the one in front of it. -/
def overlapping : List DetectorMappingRunRange → Bool
  | a :: b :: ranges => b.runMin ≤ a.runMax || overlapping (b :: ranges)
  | _ => false

def loadDetectorMappingManifest (fs : FileSystem) (path : String) :
    Except String (List DetectorMappingRunRange) :=
  match fs.read path with
  | none => .error ("Unable to read detector mapping manifest: " ++ path)
  | some content => do
    let ranges ← content.rows.foldlM (manifestRow path) []
    if content.eof = false then .error ("Unable to read detector mapping manifest: " ++ path)
    else if ranges = [] then
      .error ("Detector mapping manifest contains no run ranges: " ++ path)
    else if overlapping (ranges.insertionSort fun a b => a.runMin ≤ b.runMin) then
      .error ("Overlapping run ranges in detector mapping manifest: " ++ path)
    else .ok (ranges.insertionSort fun a b => a.runMin ≤ b.runMin)

def catalogRow (path : String) (entries : List DetectorMappingCatalogEntry) :
    Nat × List String → Except String (List DetectorMappingCatalogEntry)
  | (_, []) => .ok entries
  | (lineNumber, [detector, manifestFile]) =>
    if detector ∈ entries.map DetectorMappingCatalogEntry.detector then
      .error (catalogError path lineNumber ("duplicate detector '" ++ detector ++ "'"))
    else .ok (entries ++ [⟨detector, manifestFile⟩])
  | (lineNumber, _) => .error (catalogError path lineNumber "expected detector manifest_file")

def loadDetectorMappingCatalog (fs : FileSystem) (path : String) :
    Except String (List DetectorMappingCatalogEntry) :=
  match fs.read path with
  | none => .error ("Unable to read detector mapping catalog: " ++ path)
  | some content => do
    let entries ← content.rows.foldlM (catalogRow path) []
    if content.eof = false then .error ("Unable to read detector mapping catalog: " ++ path)
    else if entries = [] then
      .error ("Detector mapping catalog contains no detectors: " ++ path)
    else .ok (entries.insertionSort fun a b => a.detector ≤ b.detector)

def IsRunMax (token : String) (run : UInt64) : Prop :=
  token = "max" ∧ run = maxValue ∨ token ≠ "max" ∧ fromCharsUInt64 token = some run

/-- The tokens of a row of a manifest are the run range. -/
def DetectorMappingRunRange.IsRow (range : DetectorMappingRunRange) (tokens : List String) : Prop :=
  ∃ first last, tokens = [first, last, range.mappingFile] ∧
    fromCharsUInt64 first = some range.runMin ∧ IsRunMax last range.runMax

def ManifestLists (fs : FileSystem) (path : String) (range : DetectorMappingRunRange) : Prop :=
  ∃ content, fs.read path = some content ∧ ∃ row ∈ content.rows, range.IsRow row.2

def CatalogLists (fs : FileSystem) (path : String) (entry : DetectorMappingCatalogEntry) : Prop :=
  ∃ content, fs.read path = some content ∧
    ∃ row ∈ content.rows, row.2 = [entry.detector, entry.manifestFile]

theorem parseRun_false_eq_ok {token path : String} {lineNumber : Nat} {run : UInt64} :
    parseRun token path lineNumber false = .ok run ↔ fromCharsUInt64 token = some run := by
  rw [parseRun]
  cases fromCharsUInt64 token <;> simp

theorem parseRun_true_eq_ok {token path : String} {lineNumber : Nat} {run : UInt64} :
    parseRun token path lineNumber true = .ok run ↔ IsRunMax token run := by
  rw [parseRun, IsRunMax]
  by_cases hmax : token = "max"
  · simp [hmax, eq_comm]
  · cases fromCharsUInt64 token <;> simp [hmax]

theorem manifestRow_eq_ok {path : String} {ranges ranges' : List DetectorMappingRunRange}
    {row : Nat × List String} (h : manifestRow path ranges row = .ok ranges') :
    row.2 = [] ∧ ranges' = ranges ∨
      ∃ range : DetectorMappingRunRange, range.IsRow row.2 ∧ range.runMin ≤ range.runMax ∧
        ranges' = ranges ++ [range] := by
  obtain ⟨lineNumber, tokens⟩ := row
  match tokens with
  | [] => exact .inl ⟨rfl, (Except.ok.inj h).symm⟩
  | [first, last, mappingFile] =>
    obtain ⟨runMin, hmin, h⟩ := bind_eq_ok.mp h
    obtain ⟨runMax, hmax, h⟩ := bind_eq_ok.mp h
    obtain ⟨hle, h⟩ := ite_error_eq_ok.mp h
    exact .inr ⟨⟨runMin, runMax, mappingFile⟩,
      ⟨first, last, rfl, parseRun_false_eq_ok.mp hmin, parseRun_true_eq_ok.mp hmax⟩,
      not_lt.mp hle, (Except.ok.inj h).symm⟩
  | [_] => simp [manifestRow] at h
  | [_, _] => simp [manifestRow] at h
  | _ :: _ :: _ :: _ :: _ => simp [manifestRow] at h

theorem isRow_unique {tokens : List String} {a b : DetectorMappingRunRange} (ha : a.IsRow tokens)
    (hb : b.IsRow tokens) : a = b := by
  obtain ⟨first, last, htokens, hmin, hmax⟩ := ha
  obtain ⟨first', last', htokens', hmin', hmax'⟩ := hb
  rw [htokens] at htokens'
  simp only [List.cons.injEq, and_true] at htokens'
  obtain ⟨rfl, rfl, hfile⟩ := htokens'
  have hrunMin : a.runMin = b.runMin := Option.some.inj (hmin.symm.trans hmin')
  have hrunMax : a.runMax = b.runMax := by
    rcases hmax with ⟨heq, hm⟩ | ⟨hne, hm⟩ <;> rcases hmax' with ⟨heq', hm'⟩ | ⟨hne', hm'⟩
    · rw [hm, hm']
    · exact absurd heq hne'
    · exact absurd heq' hne
    · exact Option.some.inj (hm.symm.trans hm')
  cases a
  cases b
  simp_all

theorem mem_manifestRows {path : String} {rows : List (Nat × List String)}
    {ranges : List DetectorMappingRunRange} (h : rows.foldlM (manifestRow path) [] = .ok ranges) :
    (∀ range, range ∈ ranges ↔ ∃ row ∈ rows, range.IsRow row.2) ∧
      ∀ range ∈ ranges, range.runMin ≤ range.runMax := by
  refine foldlM_invariant (I := fun rows ranges =>
    (∀ range, range ∈ ranges ↔ ∃ row ∈ rows, range.IsRow row.2) ∧
      ∀ range ∈ ranges, range.runMin ≤ range.runMax) (by simp) ?_ h
  rintro pre row post ranges ranges' - ⟨hmem, hle⟩ hrow
  rcases manifestRow_eq_ok hrow with ⟨hnil, rfl⟩ | ⟨range, hrange, hrangele, rfl⟩
  · refine ⟨fun x => ?_, hle⟩
    have hnone : ¬ x.IsRow row.2 := by
      intro hh
      obtain ⟨first, last, htokens, -⟩ := hh
      simp [hnil] at htokens
    simp [hmem, or_and_right, exists_or, hnone]
  · have hunique (x : DetectorMappingRunRange) : x.IsRow row.2 ↔ x = range :=
      ⟨fun hx => isRow_unique hx hrange, fun hx => hx ▸ hrange⟩
    refine ⟨fun x => ?_, forall_mem_concat.mpr ⟨hle, hrangele⟩⟩
    simp [hmem, or_and_right, exists_or, hunique]

theorem increasing_of_not_overlapping {ranges : List DetectorMappingRunRange}
    (hle : ∀ range ∈ ranges, range.runMin ≤ range.runMax) (h : ¬ overlapping ranges) :
    Increasing DetectorMappingRunRange.runMin DetectorMappingRunRange.runMax ranges := by
  refine ⟨hle, ?_⟩
  induction ranges with
  | nil => exact .nil
  | cons a ranges ih =>
    cases ranges with
    | nil => exact List.pairwise_singleton _ a
    | cons b ranges =>
      simp only [overlapping, Bool.or_eq_true, decide_eq_true_eq, not_or, not_le] at h
      have hrest := ih (fun x hx => hle x (List.mem_cons_of_mem a hx)) h.2
      refine List.pairwise_cons.mpr ⟨fun x hx => ?_, hrest⟩
      rcases List.mem_cons.mp hx with rfl | hx
      · exact h.1
      · exact h.1.trans_le ((hle b (by simp)).trans ((List.pairwise_cons.mp hrest).1 x hx).le)

theorem loadDetectorMappingManifest_ok_iff {fs : FileSystem} {path : String}
    {ranges : List DetectorMappingRunRange} :
    loadDetectorMappingManifest fs path = .ok ranges ↔ ∃ content unsorted,
      fs.read path = some content ∧ content.rows.foldlM (manifestRow path) [] = .ok unsorted ∧
        content.eof = true ∧ unsorted ≠ [] ∧
        ¬ overlapping (unsorted.insertionSort fun a b => a.runMin ≤ b.runMin) ∧
        ranges = unsorted.insertionSort fun a b => a.runMin ≤ b.runMin := by
  rw [loadDetectorMappingManifest]
  cases hread : fs.read path with
  | none => simp
  | some content =>
    simp only [bind_eq_ok, ite_error_eq_ok, Bool.not_eq_false, Except.ok.injEq, Option.some.injEq,
      exists_and_left, exists_eq_left', eq_comm (a := ranges), ne_eq]

theorem loadDetectorMappingManifest_eq_ok {fs : FileSystem} {path : String}
    {ranges : List DetectorMappingRunRange} (h : loadDetectorMappingManifest fs path = .ok ranges) :
    (∀ range, range ∈ ranges ↔ ManifestLists fs path range) ∧
      Increasing DetectorMappingRunRange.runMin DetectorMappingRunRange.runMax ranges := by
  obtain ⟨content, unsorted, hread, hrows, -, -, hover, rfl⟩ :=
    loadDetectorMappingManifest_ok_iff.mp h
  obtain ⟨hmem, hle⟩ := mem_manifestRows hrows
  refine ⟨fun range => ?_, increasing_of_not_overlapping (fun range hrange => ?_) hover⟩
  · rw [List.mem_insertionSort, hmem]
    simp [ManifestLists, hread]
  · exact hle range ((List.mem_insertionSort _).mp hrange)

theorem mem_catalogRows {path : String} {rows : List (Nat × List String)}
    {entries : List DetectorMappingCatalogEntry}
    (h : rows.foldlM (catalogRow path) [] = .ok entries) (entry : DetectorMappingCatalogEntry) :
    entry ∈ entries ↔ ∃ row ∈ rows, row.2 = [entry.detector, entry.manifestFile] := by
  refine foldlM_invariant (I := fun rows entries => entry ∈ entries ↔
    ∃ row ∈ rows, row.2 = [entry.detector, entry.manifestFile]) (by simp) ?_ h
  rintro pre ⟨lineNumber, tokens⟩ post entries entries' - hmem hrow
  match tokens with
  | [] =>
    obtain rfl := Except.ok.inj hrow
    simp [hmem, or_and_right, exists_or]
  | [detector, manifestFile] =>
    obtain ⟨-, hrow⟩ := ite_error_eq_ok.mp hrow
    obtain rfl := Except.ok.inj hrow
    obtain ⟨detector', manifestFile'⟩ := entry
    simp [hmem, or_and_right, exists_or, eq_comm]
  | [_] => simp [catalogRow] at hrow
  | _ :: _ :: _ :: _ => simp [catalogRow] at hrow

theorem loadDetectorMappingCatalog_ok_iff {fs : FileSystem} {path : String}
    {entries : List DetectorMappingCatalogEntry} :
    loadDetectorMappingCatalog fs path = .ok entries ↔ ∃ content unsorted,
      fs.read path = some content ∧ content.rows.foldlM (catalogRow path) [] = .ok unsorted ∧
        content.eof = true ∧ unsorted ≠ [] ∧
        entries = unsorted.insertionSort fun a b => a.detector ≤ b.detector := by
  rw [loadDetectorMappingCatalog]
  cases hread : fs.read path with
  | none => simp
  | some content =>
    simp only [bind_eq_ok, ite_error_eq_ok, Bool.not_eq_false, Except.ok.injEq, Option.some.injEq,
      exists_and_left, exists_eq_left', eq_comm (a := entries), ne_eq]

theorem mem_loadDetectorMappingCatalog {fs : FileSystem} {path : String}
    {entries : List DetectorMappingCatalogEntry}
    (h : loadDetectorMappingCatalog fs path = .ok entries) (entry : DetectorMappingCatalogEntry) :
    entry ∈ entries ↔ CatalogLists fs path entry := by
  obtain ⟨content, unsorted, hread, hrows, -, -, rfl⟩ := loadDetectorMappingCatalog_ok_iff.mp h
  rw [List.mem_insertionSort, mem_catalogRows hrows]
  simp [CatalogLists, hread]

end JanaExtensions
