import JanaExtensions.MappingUpdate

/-! The rows about boards in a mapping file, beside those about numbered channels. -/

namespace JanaExtensions

open Failing RelatedLists

namespace TranslationTable

variable {fs : FileSystem} {path expectedDetector : String} {table table' : TranslationTable}
  {content : FileContent} {d : Document}

/-- A row for another address can be put anywhere after the declarations. -/
theorem Document.IsText.insert {pre post : List (List String)} {tokens : List String} {added : Row}
    (hd : d.IsText (pre ++ post)) (hpre : 2 ≤ pre.length) (hline : added.IsLine tokens)
    (hlength : added.values.length = d.fields.length) (hnew : ∀ row ∈ d.rows, row.daq ≠ added.daq) :
    ∃ d' : Document, d'.IsText (pre ++ tokens :: post) ∧ d'.detector = d.detector ∧
      ∀ row ∈ d'.rows, row = added ∨ row ∈ d.rows := by
  obtain ⟨channels, hlines, hrows⟩ := hd
  match pre, hpre with
  | first :: declaration :: pre, _ =>
    simp only [List.cons_append, List.cons.injEq] at hlines
    obtain ⟨rfl, rfl, rfl⟩ := hlines
    have hfront := List.forall₂_take pre.length hrows
    have hback := List.forall₂_drop pre.length hrows
    rw [List.take_left] at hfront
    rw [List.drop_left] at hback
    have hmem : ∀ row ∈ d.rows.take pre.length ++ added :: d.rows.drop pre.length,
        row = added ∨ row ∈ d.rows := by
      intro row hrow
      rcases List.mem_append.mp hrow with hrow | hrow
      · exact .inr (List.mem_of_mem_take hrow)
      · rcases List.mem_cons.mp hrow with hrow | hrow
        · exact .inl hrow
        · exact .inr (List.mem_of_mem_drop hrow)
    have hperm : (d.rows.take pre.length ++ added :: d.rows.drop pre.length).Perm
        (added :: (d.rows.take pre.length ++ d.rows.drop pre.length)) := List.perm_middle
    rw [List.take_append_drop] at hperm
    have haddresses : ((d.rows.take pre.length ++ added :: d.rows.drop pre.length).map
        Row.daq).Nodup := by
      rw [(hperm.map _).nodup_iff, List.map_cons, List.nodup_cons]
      refine ⟨fun hold => ?_, d.addresses_nodup⟩
      obtain ⟨row, hrow, heq⟩ := List.mem_map.mp hold
      exact hnew row hrow heq
    refine ⟨⟨d.detector, d.fields, _, d.fields_ne_nil, d.fields_nodup, ?_, haddresses⟩,
      ⟨pre ++ tokens :: post, rfl, List.rel_append hfront (.cons hline hback)⟩, rfl, hmem⟩
    intro row hrow
    rcases hmem row hrow with rfl | hrow
    · exact hlength
    · exact d.length_values row hrow

def Row.SameBoard (row other : Row) : Prop := row.rocid = other.rocid ∧ row.slot = other.slot

theorem Row.daq_ne_of_channel {row other : Row} (hother : other.channel = none)
    (hboard : row.channel = none → ¬ row.SameBoard other)
    (hchannel : row.channel ≠ some DAQAddress.unspecifiedChannel) : row.daq ≠ other.daq := by
  intro heq
  simp only [Row.daq, hother, Option.getD_none, DAQAddress.mk.injEq] at heq
  obtain ⟨hrocid, hslot, hsame⟩ := heq
  cases hrow : row.channel with
  | none => exact hboard hrow ⟨hrocid, hslot⟩
  | some channel =>
    rw [hrow] at hsame hchannel
    exact hchannel (congrArg some hsame)

/-- What the keyword for a board promises of a file with the document: no numbered row has the
address of a row for a board, a hit without a channel is matched by a row for its board only, and
a row for a board that has none yet can be added. -/
structure BoardRowsApart (path expectedDetector : String) (table table' : TranslationTable)
    (content : FileContent) (d : Document) : Prop where
  differ : ∀ row ∈ d.rows, row.channel ≠ none → ∀ other : Row, other.channel = none →
    row.daq ≠ other.daq
  matched : ∀ daq address, daq.channel = DAQAddress.unspecifiedChannel →
    table'.lookup daq = some address → table.lookup daq = some address ∨
      ∃ row ∈ d.rows, row.channel = none ∧ row.daq = daq ∧ d.address row = address
  added : ∀ added : Row, added.channel = none → added.values.length = d.fields.length →
    table.lookup added.daq = none →
    (∀ row ∈ d.rows, row.channel = none → ¬ row.SameBoard added) →
    ∀ (fs : FileSystem) (content' : FileContent) (pre post : List (List String))
      (tokens : List String), fs.read path = some content' → content'.eof = true →
      content.tokenLines = pre ++ post → 2 ≤ pre.length → added.IsLine tokens →
      content'.tokenLines = pre ++ tokens :: post →
      ∃ table'', loadMappingFile fs table path expectedDetector = .ok table''

/-- The rows for boards keep apart from the others exactly if none of the numbers in the channel
column is the one that stands for a missing channel. -/
theorem boardRowsApart_iff (hload : loadMappingFile fs table path expectedDetector = .ok table')
    (hread : fs.read path = some content) (hd : d.IsText content.tokenLines) :
    BoardRowsApart path expectedDetector table table' content d ↔
      ∀ row ∈ d.rows, row.channel ≠ some DAQAddress.unspecifiedChannel := by
  obtain ⟨content', hread', -, d', hd', hexpected, hextended⟩ := extended_of_loadMappingFile hload
  obtain rfl := Option.some.inj (hread.symm.trans hread')
  obtain rfl := hd.unique hd'
  constructor
  · intro h row hrow hchannel
    refine h.differ row hrow (by simp [hchannel]) { row with channel := none } rfl ?_
    rw [Row.daq, hchannel]
    rfl
  · intro hchannel
    refine ⟨?_, ?_, ?_⟩
    · intro row hrow hnumber other hother
      exact Row.daq_ne_of_channel hother (fun hnone => absurd hnone hnumber) (hchannel row hrow)
    · intro daq address hdaq hlookup
      rcases (lookup_loadMappingFile_document hload hread hd daq address).mp hlookup with
        hold | ⟨row, hrow, rfl, haddress⟩
      · exact .inl hold
      · refine .inr ⟨row, hrow, ?_, rfl, haddress⟩
        cases hwritten : row.channel with
        | none => rfl
        | some channel =>
          rw [Row.daq, hwritten] at hdaq
          exact absurd (hwritten.trans (congrArg some hdaq)) (hchannel row hrow)
    · intro added hnone hlength hnew hboard fs' content' pre post tokens hread' heof' hlines hpre
        hline hlines'
      have hdifferent : ∀ row ∈ d.rows, row.daq ≠ added.daq := fun row hrow =>
        Row.daq_ne_of_channel hnone (hboard row hrow) (hchannel row hrow)
      obtain ⟨d', hd', hdetector, hrows⟩ :=
        Document.IsText.insert (hlines ▸ hd) hpre hline hlength hdifferent
      refine loadMappingFile_onto_iff.mpr ⟨content', hread', heof', d', hlines' ▸ hd', ?_, ?_⟩
      · exact fun hgiven => hdetector.trans (hexpected hgiven)
      · intro row hrow
        rcases hrows row hrow with rfl | hrow
        · exact hnew
        · exact (hextended.added row hrow).1

def boardText : FileContent := ⟨"detector D\nfields f\n1 3 0 5\n1 3 none 6\n", true⟩

def boards : FileSystem where
  read path :=
    if path = "board.map" then some boardText
    else if path = "number.map" then some ⟨"detector D\nfields f\n1 3 4294967295 5\n", true⟩
    else if path = "both.map" then
      some ⟨"detector D\nfields f\n1 3 4294967295 5\n1 3 none 6\n", true⟩
    else none
  weaklyCanonical path := .ok path

def boardDocument : Document where
  detector := "D"
  fields := ["f"]
  rows := [⟨1, 3, some 0, [5]⟩, ⟨1, 3, none, [6]⟩]
  fields_ne_nil := by simp
  fields_nodup := by simp
  length_values := by simp
  addresses_nodup := by decide

theorem isText_boardDocument :
    boardDocument.IsText boardText.tokenLines := by
  have hlines : boardText.tokenLines = [["detector", "D"], ["fields", "f"], ["1", "3", "0", "5"],
      ["1", "3", "none", "6"]] := by decide +kernel
  have h1 : IsDecimalUInt32 "1" 1 := fromCharsUInt32_eq_some.mp (by decide +kernel)
  have h3 : IsDecimalUInt32 "3" 3 := fromCharsUInt32_eq_some.mp (by decide +kernel)
  have h0 : IsDecimalUInt32 "0" 0 := fromCharsUInt32_eq_some.mp (by decide +kernel)
  have h5 : IsDecimalInt32 "5" 5 := fromCharsInt32_eq_some.mp (by decide +kernel)
  have h6 : IsDecimalInt32 "6" 6 := fromCharsInt32_eq_some.mp (by decide +kernel)
  rw [hlines]
  exact ⟨_, rfl, .cons ⟨"1", "3", "0", ["5"], rfl, h1, h3, h0, .cons h5 .nil⟩
    (.cons ⟨"1", "3", "none", ["6"], rfl, h1, h3, rfl, .cons h6 .nil⟩ .nil)⟩

theorem boardRowsApart_iff_boards :
    BoardRowsApart "board.map" "D" {} ⟨OrderedMap.insert (OrderedMap.insert ∅ ⟨1, 3, 0⟩
      ⟨"D", [("f", 5)]⟩) ⟨1, 3, 0xFFFFFFFF⟩ ⟨"D", [("f", 6)]⟩⟩ boardText boardDocument :=
  have hload : loadMappingFile boards {} "board.map" "D" = .ok ⟨OrderedMap.insert (OrderedMap.insert ∅
      ⟨1, 3, 0⟩ ⟨"D", [("f", 5)]⟩) ⟨1, 3, 0xFFFFFFFF⟩ ⟨"D", [("f", 6)]⟩⟩ := by decide +kernel
  (boardRowsApart_iff hload rfl isText_boardDocument).mpr (by decide)

/-- A number that stands for the missing channel: it is matched by hits of the board, and keeps the
row for the board out. -/
theorem numberedRow_takes_board : ∃ table,
    loadMappingFile boards {} "number.map" "" = .ok table ∧
      (boards.read "number.map").map (fun content => content.tokenLines.flatten.contains "none") =
        some false ∧
      table.lookup ⟨1, 3, DAQAddress.unspecifiedChannel⟩ = some ⟨"D", [("f", 5)]⟩ ∧
      loadMappingFile boards {} "both.map" "" =
        .error (mappingError "both.map" 4 "duplicate DAQ address") :=
  ⟨⟨OrderedMap.insert ∅ ⟨1, 3, 0xFFFFFFFF⟩ ⟨"D", [("f", 5)]⟩⟩, by decide +kernel⟩

end TranslationTable

end JanaExtensions
