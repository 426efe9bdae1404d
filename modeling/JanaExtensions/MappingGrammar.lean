import JanaExtensions.OrderIndependence
import JanaExtensions.RelatedLists

/-! The grammar of the mapping configuration, without the program that reads it: decimal
numbers, channel rows, and the documents that a mapping file can hold. -/

namespace JanaExtensions

open RelatedLists

/-- The digits are the number in decimal; zeros in front do not count. -/
def IsDecimal (digits : List Char) (n : Nat) : Prop :=
  digits ≠ [] ∧ (∀ digit ∈ digits, digit.isDigit = true) ∧ digitsValue digits = n

def IsDecimalUInt32 (token : String) (value : UInt32) : Prop :=
  IsDecimal token.toList value.toNat

def IsDecimalUInt64 (token : String) (value : UInt64) : Prop :=
  IsDecimal token.toList value.toNat

def IsDecimalInt32 (token : String) (value : Int32) : Prop :=
  ∃ digits n, IsDecimal digits n ∧ (token.toList = digits ∧ value.toInt = n ∨
    token.toList = '-' :: digits ∧ value.toInt = -n)

theorem digitsBelow_eq_some {bound n : Nat} {digits : List Char} :
    digitsBelow bound digits = some n ↔ IsDecimal digits n ∧ n < bound := by
  simp only [digitsBelow, IsDecimal, ne_eq, List.all_eq_true]
  constructor
  · intro h
    split at h
    · obtain rfl := Option.some.inj h
      tauto
    · cases h
  · rintro ⟨⟨hne, hdigits, rfl⟩, hlt⟩
    rw [if_pos ⟨hne, hdigits, hlt⟩]

theorem IsDecimal.unique {digits : List Char} {n n' : Nat} (h : IsDecimal digits n)
    (h' : IsDecimal digits n') : n = n' :=
  h.2.2.symm.trans h'.2.2

theorem IsDecimalUInt32.unique {token : String} {value value' : UInt32}
    (h : IsDecimalUInt32 token value) (h' : IsDecimalUInt32 token value') : value = value' :=
  UInt32.toNat_inj.mp (IsDecimal.unique h h')

theorem not_isDecimal_minus {digits : List Char} {n : Nat} : ¬ IsDecimal ('-' :: digits) n := by
  intro h
  have hminus : '-'.isDigit = true := h.2.1 '-' (by simp)
  revert hminus
  decide

theorem fromCharsUInt32_eq_some {token : String} {value : UInt32} :
    fromCharsUInt32 token = some value ↔ IsDecimalUInt32 token value := by
  simp only [fromCharsUInt32, IsDecimalUInt32, Option.map_eq_some_iff, digitsBelow_eq_some]
  constructor
  · rintro ⟨n, ⟨h, hlt⟩, rfl⟩
    rwa [UInt32.toNat_ofNat_of_lt' hlt]
  · intro h
    exact ⟨value.toNat, ⟨h, value.toNat_lt⟩, UInt32.ofNat_toNat⟩

theorem fromCharsUInt64_eq_some {token : String} {value : UInt64} :
    fromCharsUInt64 token = some value ↔ IsDecimalUInt64 token value := by
  simp only [fromCharsUInt64, IsDecimalUInt64, Option.map_eq_some_iff, digitsBelow_eq_some]
  constructor
  · rintro ⟨n, ⟨h, hlt⟩, rfl⟩
    rwa [UInt64.toNat_ofNat_of_lt' hlt]
  · intro h
    exact ⟨value.toNat, ⟨h, value.toNat_lt⟩, UInt64.ofNat_toNat⟩

theorem fromCharsInt32_eq_some {token : String} {value : Int32} :
    fromCharsInt32 token = some value ↔ IsDecimalInt32 token value := by
  have hge := value.le_toInt
  have hlt := value.toInt_lt
  rw [fromCharsInt32, IsDecimalInt32]
  split
  next digits htoken =>
    simp only [Option.map_eq_some_iff, Option.bind_eq_bind, Option.pure_def,
      Option.bind_eq_some_iff, Option.some.injEq, digitsBelow_eq_some, htoken]
    constructor
    · rintro ⟨-, ⟨n, ⟨h, hn⟩, rfl⟩, rfl⟩
      exact ⟨digits, n, h, .inr ⟨rfl, Int32.toInt_ofInt_of_le (by omega) (by omega)⟩⟩
    · rintro ⟨digits', n, h, ⟨rfl, -⟩ | ⟨hdigits, hvalue⟩⟩
      · exact absurd h not_isDecimal_minus
      · obtain rfl := (List.cons.inj hdigits).2
        exact ⟨n, ⟨n, ⟨h, by omega⟩, rfl⟩, by rw [← hvalue, Int32.ofInt_toInt]⟩
  next digits hminus =>
    simp only [Option.map_eq_some_iff, Option.bind_eq_bind, Option.pure_def,
      Option.bind_eq_some_iff, Option.some.injEq, digitsBelow_eq_some]
    constructor
    · rintro ⟨-, ⟨n, ⟨h, hn⟩, rfl⟩, rfl⟩
      exact ⟨token.toList, n, h, .inl ⟨rfl, Int32.toInt_ofInt_of_le (by omega) (by omega)⟩⟩
    · rintro ⟨digits', n, h, ⟨rfl, hvalue⟩ | ⟨hdigits, -⟩⟩
      · exact ⟨n, ⟨n, ⟨h, by omega⟩, rfl⟩, by rw [← hvalue, Int32.ofInt_toInt]⟩
      · exact absurd hdigits (hminus digits')

theorem IsDecimalInt32.unique {token : String} {value value' : Int32}
    (h : IsDecimalInt32 token value) (h' : IsDecimalInt32 token value') : value = value' :=
  Option.some.inj ((fromCharsInt32_eq_some.mpr h).symm.trans (fromCharsInt32_eq_some.mpr h'))

namespace TranslationTable

/-- A row of a mapping file; one without a channel is about the board. -/
structure Row where
  rocid : UInt32
  slot : UInt32
  channel : Option UInt32
  values : List Int32
  deriving DecidableEq, Repr

def Row.daq (row : Row) : DAQAddress :=
  ⟨row.rocid, row.slot, row.channel.getD DAQAddress.unspecifiedChannel⟩

def IsChannelText (token : String) : Option UInt32 → Prop
  | none => token = "none"
  | some channel => IsDecimalUInt32 token channel

def Row.IsLine (row : Row) (tokens : List String) : Prop :=
  ∃ rocid slot channel values, tokens = rocid :: slot :: channel :: values ∧
    IsDecimalUInt32 rocid row.rocid ∧ IsDecimalUInt32 slot row.slot ∧
    IsChannelText channel row.channel ∧ List.Forall₂ IsDecimalInt32 values row.values

/-- What a mapping file can say: a detector, its fields, and rows with a value for each of the
fields, which have different addresses. -/
structure Document where
  detector : String
  fields : List String
  rows : List Row
  fields_ne_nil : fields ≠ []
  fields_nodup : fields.Nodup
  length_values : ∀ row ∈ rows, row.values.length = fields.length
  addresses_nodup : (rows.map Row.daq).Nodup

def Document.IsText (d : Document) (lines : List (List String)) : Prop :=
  ∃ channels, lines = ["detector", d.detector] :: ("fields" :: d.fields) :: channels ∧
    List.Forall₂ (fun tokens row => Row.IsLine row tokens) channels d.rows

def Document.address (d : Document) (row : Row) : DetectorAddress :=
  ⟨d.detector, d.fields.zip row.values⟩

theorem not_isDecimalUInt32_none {channel : UInt32} : ¬ IsDecimalUInt32 "none" channel := by
  have hnone : fromCharsUInt32 "none" = none := by decide +kernel
  rw [← fromCharsUInt32_eq_some, hnone]
  exact fun h => nomatch h

theorem isChannel_iff {token : String} {channel : UInt32} :
    IsChannel token channel ↔ ∃ written, IsChannelText token written ∧
      channel = written.getD DAQAddress.unspecifiedChannel := by
  rw [IsChannel]
  constructor
  · rintro (⟨rfl, rfl⟩ | ⟨-, hnumber⟩)
    · exact ⟨none, rfl, rfl⟩
    · exact ⟨some channel, fromCharsUInt32_eq_some.mp hnumber, rfl⟩
  · rintro ⟨written | number, hwritten, rfl⟩
    · exact .inl ⟨hwritten, rfl⟩
    · refine .inr ⟨?_, fromCharsUInt32_eq_some.mpr hwritten⟩
      rintro rfl
      exact not_isDecimalUInt32_none hwritten

theorem map_fromCharsInt32_iff {values : List String} {numbers : List Int32} :
    values.map fromCharsInt32 = numbers.map some ↔ List.Forall₂ IsDecimalInt32 values numbers := by
  rw [← List.forall₂_eq_eq_eq, List.forall₂_map_left_iff, List.forall₂_map_right_iff]
  simp only [fromCharsInt32_eq_some]

theorem isChannelRow_iff {detector : String} {names tokens : List String} {daq : DAQAddress}
    {address : DetectorAddress} :
    IsChannelRow detector names tokens daq address ↔ ∃ row : Row, row.IsLine tokens ∧
      row.values.length = names.length ∧ (daq, address) =
        (row.daq, ⟨detector, names.zip row.values⟩) := by
  simp only [IsChannelRow, fromCharsUInt32_eq_some, map_fromCharsInt32_iff, isChannel_iff]
  constructor
  · rintro ⟨rocid, slot, channel, values, numbers, rfl, hr, hs, ⟨written, hw, hc⟩, hlength, hv, rfl⟩
    refine ⟨⟨daq.rocid, daq.slot, written, numbers⟩,
      ⟨rocid, slot, channel, values, rfl, hr, hs, hw, hv⟩, hv.length_eq ▸ hlength, ?_⟩
    rw [Row.daq, ← hc]
  · rintro ⟨row, ⟨rocid, slot, channel, values, rfl, hr, hs, hw, hv⟩, hlength, heq⟩
    obtain ⟨rfl, rfl⟩ := Prod.mk.inj heq
    exact ⟨rocid, slot, channel, values, row.values, rfl, hr, hs, ⟨row.channel, hw, rfl⟩,
      hv.length_eq.trans hlength, hv, rfl⟩

theorem Row.IsLine.isChannelLine {row : Row} {tokens : List String} (h : row.IsLine tokens) :
    isChannelLine tokens = true := by
  have hrow : IsChannelRow "" (List.replicate row.values.length "") tokens row.daq
      ⟨"", (List.replicate row.values.length "").zip row.values⟩ :=
    isChannelRow_iff.mpr ⟨row, h, by simp, rfl⟩
  exact isChannelLine_of_isChannelRow hrow

theorem IsChannelText.unique {token : String} {channel channel' : Option UInt32}
    (h : IsChannelText token channel) (h' : IsChannelText token channel') : channel = channel' := by
  match channel, channel' with
  | none, none => rfl
  | none, some number =>
    obtain rfl : token = "none" := h
    exact absurd h' not_isDecimalUInt32_none
  | some number, none =>
    obtain rfl : token = "none" := h'
    exact absurd h not_isDecimalUInt32_none
  | some number, some number' => rw [IsDecimalUInt32.unique h h']

theorem Row.IsLine.unique {row row' : Row} {tokens : List String} (h : row.IsLine tokens)
    (h' : row'.IsLine tokens) : row = row' := by
  obtain ⟨rocid, slot, channel, values, rfl, hr, hs, hc, hv⟩ := h
  obtain ⟨rocid', slot', channel', values', htokens, hr', hs', hc', hv'⟩ := h'
  simp only [List.cons.injEq] at htokens
  obtain ⟨rfl, rfl, rfl, rfl⟩ := htokens
  have hrocid := hr.unique hr'
  have hslot := hs.unique hs'
  have hchannel := hc.unique hc'
  have hunique : Relator.RightUnique IsDecimalInt32 := fun _ _ _ => IsDecimalInt32.unique
  have hvalues : row.values = row'.values := hunique.forall₂ hv hv'
  cases row
  cases row'
  simp_all

theorem channelLines_iff_rows {detector : String} {names : List String}
    {lines : List (List String)} :
    ChannelLines detector names lines ↔ ∃ rows : List Row,
      List.Forall₂ (fun tokens row => Row.IsLine row tokens) lines rows ∧
      (∀ row ∈ rows, row.values.length = names.length) ∧ (rows.map Row.daq).Nodup := by
  simp only [ChannelLines, isChannelRow_iff, Prod.mk.eta, forall₂_through_iff]
  constructor
  · rintro ⟨-, ⟨rows, hlines, hlength, rfl⟩, hnodup⟩
    rw [List.map_map] at hnodup
    exact ⟨rows, hlines, hlength, hnodup⟩
  · rintro ⟨rows, hlines, hlength, hnodup⟩
    refine ⟨_, ⟨rows, hlines, hlength, rfl⟩, ?_⟩
    rw [List.map_map]
    exact hnodup

theorem mappingLines_iff_document {expectedDetector : String} {lines : List (List String)} :
    MappingLines expectedDetector lines ↔ ∃ d : Document, d.IsText lines ∧
      (expectedDetector ≠ "" → d.detector = expectedDetector) := by
  simp only [MappingLines, channelLines_iff_rows]
  constructor
  · rintro ⟨detector, names, channels, rfl, hexpected, hne, hnodup, rows, hrows, hlength, haddresses⟩
    exact ⟨⟨detector, names, rows, hne, hnodup, hlength, haddresses⟩, ⟨channels, rfl, hrows⟩,
      hexpected⟩
  · rintro ⟨d, ⟨channels, rfl, hrows⟩, hexpected⟩
    exact ⟨d.detector, d.fields, channels, rfl, hexpected, d.fields_ne_nil, d.fields_nodup, d.rows,
      hrows, d.length_values, d.addresses_nodup⟩

theorem Document.isChannelRow {d : Document} {row : Row} {tokens : List String} (hrow : row ∈ d.rows)
    (hline : row.IsLine tokens) :
    IsChannelRow d.detector d.fields tokens row.daq (d.address row) :=
  isChannelRow_iff.mpr ⟨row, hline, d.length_values row hrow, rfl⟩

variable {fs : FileSystem} {path expectedDetector : String} {content : FileContent} {d : Document}

/-- A line with a channel row is the line of one of the rows of the document. -/
theorem Document.IsText.exists_row {lines : List (List String)} (hd : d.IsText lines)
    {tokens : List String} (htokens : tokens ∈ lines) (hchannel : isChannelLine tokens = true) :
    ∃ row ∈ d.rows, row.IsLine tokens := by
  obtain ⟨channels, rfl, hrows⟩ := hd
  have hmem : tokens ∈ channels := by
    rcases List.mem_cons.mp htokens with rfl | hmem
    · simp [isChannelLine] at hchannel
    · rcases List.mem_cons.mp hmem with rfl | hmem
      · simp [isChannelLine] at hchannel
      · exact hmem
  exact exists_of_forall₂_mem hrows hmem

theorem Document.IsText.declared {lines : List (List String)} (hd : d.IsText lines)
    {tokens : List String} (htokens : tokens ∈ lines) (hchannel : isChannelLine tokens = false) :
    tokens = ["detector", d.detector] ∨ tokens = "fields" :: d.fields := by
  obtain ⟨channels, rfl, hrows⟩ := hd
  rcases List.mem_cons.mp htokens with rfl | hmem
  · exact .inl rfl
  · rcases List.mem_cons.mp hmem with rfl | hmem
    · exact .inr rfl
    · obtain ⟨row, -, hline⟩ := exists_of_forall₂_mem hrows hmem
      rw [hline.isChannelLine] at hchannel
      cases hchannel

/-- A text is one document only. -/
theorem Document.IsText.unique {d' : Document} {lines : List (List String)} (hd : d.IsText lines)
    (hd' : d'.IsText lines) : d = d' := by
  obtain ⟨channels, rfl, hrows⟩ := hd
  obtain ⟨channels', hlines, hrows'⟩ := hd'
  simp only [List.cons.injEq, and_true, true_and] at hlines
  obtain ⟨hdetector, hfields, rfl⟩ := hlines
  have hunique : Relator.RightUnique fun tokens row => Row.IsLine row tokens :=
    fun _ _ _ => Row.IsLine.unique
  have hsame : d.rows = d'.rows := hunique.forall₂ hrows hrows'
  cases d
  cases d'
  simp_all

/-- The file gives what its rows say. -/
theorem mappingGives_iff_row (hread : fs.read path = some content)
    (hd : d.IsText content.tokenLines) (daq : DAQAddress) (address : DetectorAddress) :
    MappingGives fs path daq address ↔ ∃ row ∈ d.rows, row.daq = daq ∧ d.address row = address := by
  rw [mappingGives_iff_lines]
  constructor
  · rintro ⟨content', hread', detector, names, hdetector, hfields, tokens, htokens, hgives⟩
    obtain rfl := Option.some.inj (hread.symm.trans hread')
    have hdetector : detector = d.detector := by
      simpa using hd.declared hdetector (by simp [isChannelLine])
    have hfields : names = d.fields := by
      simpa using hd.declared hfields (by simp [isChannelLine])
    subst hdetector hfields
    obtain ⟨row, hrow, hline⟩ := hd.exists_row htokens (isChannelLine_of_isChannelRow hgives)
    obtain ⟨hdaq, haddress⟩ := isChannelRow_unique hgives (d.isChannelRow hrow hline)
    exact ⟨row, hrow, hdaq, haddress⟩
  · rintro ⟨row, hrow, rfl, rfl⟩
    obtain ⟨channels, hlines, hrows⟩ := hd
    obtain ⟨tokens, htokens, hline⟩ := exists_of_forall₂_mem_right hrows hrow
    refine ⟨content, hread, d.detector, d.fields, ?_, ?_, tokens, ?_, d.isChannelRow hrow hline⟩
    all_goals simp [hlines, htokens]

theorem lookup_loadMappingFile_document {table table' : TranslationTable}
    (h : loadMappingFile fs table path expectedDetector = .ok table')
    (hread : fs.read path = some content) (hd : d.IsText content.tokenLines) (daq : DAQAddress)
    (address : DetectorAddress) : table'.lookup daq = some address ↔
      table.lookup daq = some address ∨ ∃ row ∈ d.rows, row.daq = daq ∧ d.address row = address := by
  rw [lookup_loadMappingFile h, mappingGives_iff_row hread hd]

/-- A mapping file is accepted exactly if its lines are a document for the detector, and the table
has the rows of the document then, and no others. -/
theorem loadMappingFile_iff_document (fs : FileSystem) (path expectedDetector : String) :
    ((∃ table, loadMappingFile fs {} path expectedDetector = .ok table) ↔
      ∃ content, fs.read path = some content ∧ content.eof = true ∧
        ∃ d : Document, d.IsText content.tokenLines ∧
          (expectedDetector ≠ "" → d.detector = expectedDetector)) ∧
      ∀ table content d, loadMappingFile fs {} path expectedDetector = .ok table →
        fs.read path = some content → Document.IsText d content.tokenLines →
          (∀ row ∈ d.rows, table.lookup row.daq = some (d.address row)) ∧
          ∀ daq, (∀ row ∈ d.rows, row.daq ≠ daq) → table.lookup daq = none := by
  refine ⟨by simp only [loadMappingFile_alone_iff, mappingLines_iff_document], ?_⟩
  intro table content d h hread hd
  have hlookup := lookup_loadMappingFile_document h hread hd
  refine ⟨fun row hrow => (hlookup _ _).mpr (.inr ⟨row, hrow, rfl, rfl⟩), ?_⟩
  intro daq hother
  rw [Option.eq_none_iff_forall_ne_some]
  intro address haddress
  rcases (hlookup _ _).mp haddress with hnone | ⟨row, hrow, hdaq, -⟩
  · cases hnone
  · exact hother row hrow hdaq

end TranslationTable

end JanaExtensions
