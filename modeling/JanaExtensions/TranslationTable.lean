import JanaExtensions.Filesystem
import JanaExtensions.OrderedMap
import Mathlib.Data.Prod.Lex
import Mathlib.Data.Prod.Basic

/-! The table that translates DAQ addresses, and the mapping files it is loaded from. -/

namespace JanaExtensions

open Failing

structure DAQAddress where
  rocid : UInt32
  slot : UInt32
  channel : UInt32
  deriving DecidableEq, Repr

instance : LinearOrder DAQAddress :=
  LinearOrder.lift' (fun a => toLex (a.rocid, toLex (a.slot, a.channel))) (by
    rintro ⟨rocid, slot, channel⟩ ⟨rocid', slot', channel'⟩ h
    simpa using h)

def DAQAddress.unspecifiedChannel : UInt32 := 0xFFFFFFFF

structure DetectorAddress where
  detector : String
  fields : List (String × Int32)
  deriving DecidableEq

def mappingError (path : String) (lineNumber : Nat) (message : String) : String :=
  "Invalid detector mapping " ++ path ++ ":" ++ toString lineNumber ++ ": " ++ message

def parseInteger {α : Type} (fromChars : String → Option α) (token path : String)
    (lineNumber : Nat) : Except String α :=
  match fromChars token with
  | some value => .ok value
  | none => .error (mappingError path lineNumber ("'" ++ token ++ "' is not an in-range integer"))

def parseChannel (token path : String) (lineNumber : Nat) : Except String UInt32 :=
  if token = "none" then .ok DAQAddress.unspecifiedChannel
  else parseInteger fromCharsUInt32 token path lineNumber

structure TranslationTable where
  entries : OrderedMap DAQAddress DetectorAddress := ∅
  deriving DecidableEq

namespace TranslationTable

def insert (table : TranslationTable) (daq : DAQAddress) (detector : DetectorAddress) :
    TranslationTable × Bool :=
  (⟨(table.entries.emplace daq detector).1⟩, (table.entries.emplace daq detector).2)

def lookup (table : TranslationTable) (daq : DAQAddress) : Option DetectorAddress :=
  table.entries.find daq

structure Loading where
  detector : String := ""
  fields : List String := []
  loaded : TranslationTable := {}

def detectorRow (path expectedDetector : String) (s : Loading) (lineNumber : Nat) :
    List String → Except String Loading
  | [detector] =>
    if s.detector ≠ "" ∨ s.fields ≠ [] then
      .error (mappingError path lineNumber "expected one 'detector NAME' declaration")
    else if expectedDetector ≠ "" ∧ detector ≠ expectedDetector then
      .error (mappingError path lineNumber ("detector '" ++ detector ++
        "' does not match catalog detector '" ++ expectedDetector ++ "'"))
    else .ok { s with detector }
  | _ => .error (mappingError path lineNumber "expected one 'detector NAME' declaration")

def fieldsRow (path : String) (s : Loading) (lineNumber : Nat) (names : List String) :
    Except String Loading :=
  if s.detector = "" ∨ s.fields ≠ [] ∨ names = [] then
    .error (mappingError path lineNumber
      "expected one 'fields NAME [NAME ...]' declaration after detector")
  else if ¬ names.Nodup then
    .error (mappingError path lineNumber "detector field names must be unique")
  else .ok { s with fields := names }

def channelRow (path : String) (s : Loading) (lineNumber : Nat) (tokens : List String) :
    Except String Loading :=
  if s.detector = "" ∨ s.fields = [] then
    .error (mappingError path lineNumber "channel row appears before declarations")
  else if tokens.length ≠ s.fields.length + 3 then
    .error (mappingError path lineNumber
      "channel row must contain rocid, slot, channel, and one value per detector field")
  else do
    let rocid ← parseInteger fromCharsUInt32 (tokens.getD 0 "") path lineNumber
    let slot ← parseInteger fromCharsUInt32 (tokens.getD 1 "") path lineNumber
    let channel ← parseChannel (tokens.getD 2 "") path lineNumber
    let values ← (tokens.drop 3).mapM fun token =>
      parseInteger fromCharsInt32 token path lineNumber
    let inserted := s.loaded.insert ⟨rocid, slot, channel⟩ ⟨s.detector, s.fields.zip values⟩
    if inserted.2 = false then .error (mappingError path lineNumber "duplicate DAQ address")
    else .ok { s with loaded := inserted.1 }

def mappingRow (path expectedDetector : String) (s : Loading) :
    Nat × List String → Except String Loading
  | (_, []) => .ok s
  | (lineNumber, first :: rest) =>
    if first = "detector" then detectorRow path expectedDetector s lineNumber rest
    else if first = "fields" then fieldsRow path s lineNumber rest
    else channelRow path s lineNumber (first :: rest)

/-- The table with all entries of another one, which must be new. -/
def combine (path : String) (table loaded : TranslationTable) : Except String TranslationTable :=
  loaded.entries.entries.foldlM (fun combined entry =>
    let inserted := combined.insert entry.1 entry.2
    if inserted.2 = false then
      .error ("Duplicate DAQ address while loading detector mapping: " ++ path)
    else .ok inserted.1) table

def loadMappingFile (fs : FileSystem) (table : TranslationTable) (path expectedDetector : String) :
    Except String TranslationTable :=
  match fs.read path with
  | none => .error ("Unable to open detector mapping: " ++ path)
  | some content => do
    let s ← content.rows.foldlM (mappingRow path expectedDetector) {}
    if content.eof = false then .error ("Unable to read detector mapping: " ++ path)
    else if s.detector = "" ∨ s.fields = [] then
      .error (mappingError path content.rows.length "missing detector or fields declaration")
    else combine path table s.loaded

def IsChannel (token : String) (channel : UInt32) : Prop :=
  token = "none" ∧ channel = DAQAddress.unspecifiedChannel ∨
    token ≠ "none" ∧ fromCharsUInt32 token = some channel

def IsChannelRow (detector : String) (names : List String) (tokens : List String)
    (daq : DAQAddress) (address : DetectorAddress) : Prop :=
  ∃ rocid slot channel values numbers, tokens = rocid :: slot :: channel :: values ∧
    fromCharsUInt32 rocid = some daq.rocid ∧ fromCharsUInt32 slot = some daq.slot ∧
    IsChannel channel daq.channel ∧ values.length = names.length ∧
    values.map fromCharsInt32 = numbers.map some ∧ address = ⟨detector, names.zip numbers⟩

/-- A row of the mapping file gives the detector address to the DAQ address. -/
def MappingGives (fs : FileSystem) (path : String) (daq : DAQAddress)
    (address : DetectorAddress) : Prop :=
  ∃ content, fs.read path = some content ∧ ∃ detector names,
    (∃ row ∈ content.rows, row.2 = ["detector", detector]) ∧
    (∃ row ∈ content.rows, row.2 = "fields" :: names) ∧
    ∃ row ∈ content.rows, IsChannelRow detector names row.2 daq address

theorem insert_eq_true_iff {table : TranslationTable} {daq : DAQAddress}
    {detector : DetectorAddress} :
    (table.insert daq detector).2 = true ↔ table.lookup daq = none := by
  rw [insert, lookup, OrderedMap.emplace]
  cases table.entries.find daq <;> simp

theorem insert_insert_iff {table : TranslationTable} {daq daq' : DAQAddress}
    {detector detector' : DetectorAddress} :
    ((table.insert daq detector).1.insert daq' detector').2 = true ↔
      (table.insert daq' detector').2 = true ∧ daq ≠ daq' := by
  rw [insert_eq_true_iff, insert_eq_true_iff]
  simp only [lookup, insert, OrderedMap.emplace]
  cases hfind : table.entries.find daq with
  | some old =>
    by_cases hdaq : daq = daq'
    · simp [← hdaq, hfind]
    · simp [hdaq]
  | none =>
    rw [OrderedMap.find_insert]
    by_cases hdaq : daq = daq'
    · simp [hdaq]
    · simp [hdaq, Ne.symm hdaq]

theorem lookup_insert {table : TranslationTable} {daq : DAQAddress} {detector : DetectorAddress}
    (h : (table.insert daq detector).2 = true) (daq' : DAQAddress) (address : DetectorAddress) :
    (table.insert daq detector).1.lookup daq' = some address ↔
      table.lookup daq' = some address ∨ daq' = daq ∧ address = detector := by
  simp only [insert, OrderedMap.emplace] at h ⊢
  cases hfind : table.entries.find daq with
  | some old => simp [hfind] at h
  | none =>
    simp only [lookup, OrderedMap.find_insert]
    by_cases hdaq : daq' = daq
    · simp [hdaq, hfind, eq_comm]
    · simp [hdaq]

theorem lookup_combine {path : String} {table loaded combined : TranslationTable}
    (h : combine path table loaded = .ok combined) (daq : DAQAddress) (address : DetectorAddress) :
    combined.lookup daq = some address ↔
      table.lookup daq = some address ∨ loaded.lookup daq = some address := by
  have hentries : combined.lookup daq = some address ↔
      table.lookup daq = some address ∨ (daq, address) ∈ loaded.entries.entries := by
    refine foldlM_invariant (I := fun entries (combined : TranslationTable) =>
      combined.lookup daq = some address ↔
        table.lookup daq = some address ∨ (daq, address) ∈ entries) (by simp) ?_ h
    rintro pre ⟨key, value⟩ post t t' - ht hinsert
    obtain ⟨hnew, hinsert⟩ := ite_error_eq_ok.mp hinsert
    obtain rfl := Except.ok.inj hinsert
    rw [lookup_insert (by simpa using hnew), ht]
    simp [or_assoc]
  rw [hentries, OrderedMap.mem_entries_iff]
  rfl

theorem parseInteger_eq_ok {α : Type} {fromChars : String → Option α} {token path : String}
    {lineNumber : Nat} {value : α} :
    parseInteger fromChars token path lineNumber = .ok value ↔ fromChars token = some value := by
  rw [parseInteger]
  cases fromChars token <;> simp

theorem parseChannel_eq_ok {token path : String} {lineNumber : Nat} {channel : UInt32} :
    parseChannel token path lineNumber = .ok channel ↔ IsChannel token channel := by
  rw [parseChannel, IsChannel]
  by_cases hnone : token = "none"
  · simp [hnone, eq_comm]
  · simp [hnone, parseInteger_eq_ok]

theorem isChannelRow_unique {detector : String} {names tokens : List String}
    {daq daq' : DAQAddress} {address address' : DetectorAddress}
    (h : IsChannelRow detector names tokens daq address)
    (h' : IsChannelRow detector names tokens daq' address') : daq' = daq ∧ address' = address := by
  obtain ⟨rocid, slot, channel, values, numbers, htokens, hr, hs, hc, -, hv, rfl⟩ := h
  obtain ⟨rocid', slot', channel', values', numbers', htokens', hr', hs', hc', -, hv', rfl⟩ := h'
  rw [htokens] at htokens'
  simp only [List.cons.injEq] at htokens'
  obtain ⟨rfl, rfl, rfl, rfl⟩ := htokens'
  have hrocid : daq'.rocid = daq.rocid := Option.some.inj (hr'.symm.trans hr)
  have hslot : daq'.slot = daq.slot := Option.some.inj (hs'.symm.trans hs)
  have hchannel : daq'.channel = daq.channel := by
    rcases hc with ⟨heq, h⟩ | ⟨hne, h⟩ <;> rcases hc' with ⟨heq', h'⟩ | ⟨hne', h'⟩
    · rw [h, h']
    · exact absurd heq hne'
    · exact absurd heq' hne
    · exact Option.some.inj (h'.symm.trans h)
  have hnumbers : numbers' = numbers :=
    (List.map_inj_right fun _ _ => Option.some.inj).mp (hv'.symm.trans hv)
  cases daq
  cases daq'
  simp_all

theorem not_isChannelRow {first detector : String} {names rest : List String} {daq : DAQAddress}
    {address : DetectorAddress} (h : fromCharsUInt32 first = none) :
    ¬ IsChannelRow detector names (first :: rest) daq address := by
  intro hh
  obtain ⟨rocid, slot, channel, values, numbers, htokens, hr, -⟩ := hh
  rw [(List.cons_eq_cons.mp htokens).1, hr] at h
  cases h

theorem channelRow_eq_ok {path : String} {s s' : Loading} {lineNumber : Nat}
    {tokens : List String} (h : channelRow path s lineNumber tokens = .ok s') :
    s.detector ≠ "" ∧ s.fields ≠ [] ∧ ∃ daq address,
      IsChannelRow s.detector s.fields tokens daq address ∧
      (s.loaded.insert daq address).2 = true ∧
      s' = { s with loaded := (s.loaded.insert daq address).1 } := by
  obtain ⟨hdeclared, h⟩ := ite_error_eq_ok.mp h
  obtain ⟨hlength, h⟩ := ite_error_eq_ok.mp h
  rw [not_or] at hdeclared
  obtain ⟨t0, t1, t2, rest, rfl⟩ : ∃ t0 t1 t2 rest, tokens = t0 :: t1 :: t2 :: rest := by
    match tokens, hlength with
    | t0 :: t1 :: t2 :: rest, _ => exact ⟨t0, t1, t2, rest, rfl⟩
    | [], hlength => simp at hlength
    | [_], hlength => simp at hlength
    | [_, _], hlength => simp at hlength
  obtain ⟨rocid, hrocid, h⟩ := bind_eq_ok.mp h
  obtain ⟨slot, hslot, h⟩ := bind_eq_ok.mp h
  obtain ⟨channel, hchannel, h⟩ := bind_eq_ok.mp h
  obtain ⟨values, hvalues, h⟩ := bind_eq_ok.mp h
  obtain ⟨hnew, h⟩ := ite_error_eq_ok.mp h
  refine ⟨hdeclared.1, hdeclared.2, ⟨rocid, slot, channel⟩, ⟨s.detector, s.fields.zip values⟩,
    ⟨t0, t1, t2, rest, values, rfl, parseInteger_eq_ok.mp hrocid, parseInteger_eq_ok.mp hslot,
      parseChannel_eq_ok.mp hchannel, by simpa using hlength, ?_, rfl⟩, by simpa using hnew,
    (Except.ok.inj h).symm⟩
  have hparsed := (mapM_eq_ok.mp hvalues).imp fun token number hn => parseInteger_eq_ok.mp hn
  rwa [← List.forall₂_eq_eq_eq, List.forall₂_map_left_iff, List.forall₂_map_right_iff]

structure Loads (rows : List (Nat × List String)) (s : Loading) : Prop where
  detector : ∀ name, (∃ row ∈ rows, row.2 = ["detector", name]) ↔ s.detector = name ∧ name ≠ ""
  fields : ∀ names, (∃ row ∈ rows, row.2 = "fields" :: names) ↔ s.fields = names ∧ names ≠ []
  channels : ∀ daq address, s.loaded.lookup daq = some address ↔
    ∃ row ∈ rows, IsChannelRow s.detector s.fields row.2 daq address
  before : s.fields = [] → ∀ row ∈ rows, ∀ detector names daq address,
    ¬ IsChannelRow detector names row.2 daq address

theorem detectorRow_eq_ok {path expectedDetector : String} {s s' : Loading} {lineNumber : Nat}
    {rest : List String} (h : detectorRow path expectedDetector s lineNumber rest = .ok s') :
    s.detector = "" ∧ s.fields = [] ∧ ∃ detector, rest = [detector] ∧ s' = { s with detector } := by
  match rest with
  | [detector] =>
    obtain ⟨hfresh, h⟩ := ite_error_eq_ok.mp h
    obtain ⟨-, h⟩ := ite_error_eq_ok.mp h
    rw [not_or, not_not, not_not] at hfresh
    exact ⟨hfresh.1, hfresh.2, detector, rfl, (Except.ok.inj h).symm⟩
  | [] => simp [detectorRow] at h
  | _ :: _ :: _ => simp [detectorRow] at h

theorem fieldsRow_eq_ok {path : String} {s s' : Loading} {lineNumber : Nat} {names : List String}
    (h : fieldsRow path s lineNumber names = .ok s') :
    s.fields = [] ∧ names ≠ [] ∧ s' = { s with fields := names } := by
  obtain ⟨hfresh, h⟩ := ite_error_eq_ok.mp h
  obtain ⟨-, h⟩ := ite_error_eq_ok.mp h
  rw [not_or, not_or, not_not] at hfresh
  exact ⟨hfresh.2.1, hfresh.2.2, (Except.ok.inj h).symm⟩

theorem Loads.no_channels {rows : List (Nat × List String)} {s : Loading} (h : Loads rows s)
    (hf : s.fields = []) (row : Nat × List String)
    (hrow : ∀ detector names daq address, ¬ IsChannelRow detector names row.2 daq address) :
    (∀ daq address, s.loaded.lookup daq ≠ some address) ∧
      ∀ r ∈ rows ++ [row], ∀ detector names daq address,
        ¬ IsChannelRow detector names r.2 daq address := by
  refine ⟨fun daq address hlookup => ?_, forall_mem_concat.mpr ⟨h.before hf, hrow⟩⟩
  obtain ⟨r, hr, hchannel⟩ := (h.channels daq address).mp hlookup
  exact h.before hf r hr _ _ _ _ hchannel

section Rows

variable {path : String} {rows : List (Nat × List String)} {s s' : Loading} {lineNumber : Nat}

theorem Loads.emptyRow (h : Loads rows s) : Loads (rows ++ [(lineNumber, [])]) s := by
  have hnone : ∀ detector names daq address, ¬ IsChannelRow detector names [] daq address := by
    intro detector names daq address hrow
    obtain ⟨rocid, slot, channel, values, numbers, hnil, -⟩ := hrow
    cases hnil
  refine ⟨fun name => ?_, fun names => ?_, fun daq address => ?_, fun hf => ?_⟩
  · rw [exists_mem_concat, h.detector]
    simp
  · rw [exists_mem_concat, h.fields]
    simp
  · rw [exists_mem_concat, h.channels]
    simp [hnone]
  · exact forall_mem_concat.mpr ⟨h.before hf, hnone⟩

theorem Loads.detectorRow {expectedDetector : String} {rest : List String} (h : Loads rows s)
    (htokens : ∀ token ∈ rest, token ≠ "")
    (hrow : TranslationTable.detectorRow path expectedDetector s lineNumber rest = .ok s') :
    Loads (rows ++ [(lineNumber, "detector" :: rest)]) s' := by
  obtain ⟨hd, hf, detector, rfl, rfl⟩ := detectorRow_eq_ok hrow
  have hne : detector ≠ "" := htokens detector (by simp)
  obtain ⟨hempty, hnone⟩ := h.no_channels hf (lineNumber, ["detector", detector])
    fun _ _ _ _ => not_isChannelRow (by decide +kernel)
  refine ⟨fun name => ?_, fun names => ?_, fun daq address => ?_, fun _ => hnone⟩
  · rw [exists_mem_concat, h.detector, hd]
    constructor
    · intro hh
      rcases hh with ⟨rfl, hname⟩ | hname
      · exact absurd rfl hname
      · simp only [List.cons.injEq, and_true, true_and] at hname
        exact ⟨hname, hname ▸ hne⟩
    · intro hh
      obtain ⟨rfl, -⟩ := hh
      exact .inr rfl
  · rw [exists_mem_concat, h.fields]
    simp
  · refine iff_of_false (hempty daq address) ?_
    intro hh
    obtain ⟨r, hr, hchannel⟩ := hh
    exact hnone r hr _ _ _ _ hchannel

theorem Loads.fieldsRow {names : List String} (h : Loads rows s)
    (hrow : TranslationTable.fieldsRow path s lineNumber names = .ok s') :
    Loads (rows ++ [(lineNumber, "fields" :: names)]) s' := by
  obtain ⟨hf, hne, rfl⟩ := fieldsRow_eq_ok hrow
  obtain ⟨hempty, hnone⟩ := h.no_channels hf (lineNumber, "fields" :: names)
    fun _ _ _ _ => not_isChannelRow (by decide +kernel)
  refine ⟨fun name => ?_, fun names' => ?_, fun daq address => ?_, fun _ => hnone⟩
  · rw [exists_mem_concat, h.detector]
    simp
  · rw [exists_mem_concat, h.fields, hf]
    constructor
    · intro hh
      rcases hh with ⟨rfl, hnames⟩ | hnames
      · exact absurd rfl hnames
      · obtain rfl := (List.cons_eq_cons.mp hnames).2
        exact ⟨rfl, hne⟩
    · intro hh
      obtain ⟨rfl, -⟩ := hh
      exact .inr rfl
  · refine iff_of_false (hempty daq address) ?_
    intro hh
    obtain ⟨r, hr, hchannel⟩ := hh
    exact hnone r hr _ _ _ _ hchannel

theorem Loads.channelRow {first : String} {rest : List String} (h : Loads rows s)
    (hdetector : first ≠ "detector") (hfields : first ≠ "fields")
    (hrow : TranslationTable.channelRow path s lineNumber (first :: rest) = .ok s') :
    Loads (rows ++ [(lineNumber, first :: rest)]) s' := by
  obtain ⟨hd, hf, daq, address, hchannel, hnew, rfl⟩ := channelRow_eq_ok hrow
  refine ⟨fun name => ?_, fun names => ?_, fun daq' address' => ?_, fun hnil => absurd hnil hf⟩
  · rw [exists_mem_concat, h.detector]
    simp [hdetector]
  · rw [exists_mem_concat, h.fields]
    simp [hfields]
  · rw [lookup_insert hnew, h.channels, exists_mem_concat]
    refine or_congr_right ⟨?_, fun hrow => isChannelRow_unique hchannel hrow⟩
    intro hh
    obtain ⟨rfl, rfl⟩ := hh
    exact hchannel

theorem Loads.step {expectedDetector : String} {row : Nat × List String} (h : Loads rows s)
    (htokens : ∀ token ∈ row.2, token ≠ "") (hrow : mappingRow path expectedDetector s row = .ok s') :
    Loads (rows ++ [row]) s' := by
  obtain ⟨lineNumber, tokens⟩ := row
  cases tokens with
  | nil =>
    obtain rfl := Except.ok.inj hrow
    exact h.emptyRow
  | cons first rest =>
    rw [mappingRow] at hrow
    by_cases hdetector : first = "detector"
    · subst hdetector
      rw [if_pos rfl] at hrow
      exact h.detectorRow (fun token htoken => htokens token (by simp [htoken])) hrow
    rw [if_neg hdetector] at hrow
    by_cases hfields : first = "fields"
    · subst hfields
      rw [if_pos rfl] at hrow
      exact h.fieldsRow hrow
    · rw [if_neg hfields] at hrow
      exact h.channelRow hdetector hfields hrow

end Rows

theorem loadMappingFile_ok_iff {fs : FileSystem} {table table' : TranslationTable}
    {path expectedDetector : String} :
    loadMappingFile fs table path expectedDetector = .ok table' ↔ ∃ content s,
      fs.read path = some content ∧
        content.rows.foldlM (mappingRow path expectedDetector) {} = .ok s ∧
        content.eof = true ∧ s.detector ≠ "" ∧ s.fields ≠ [] ∧
        combine path table s.loaded = .ok table' := by
  rw [loadMappingFile]
  cases hread : fs.read path with
  | none => simp
  | some content =>
    simp only [bind_eq_ok, ite_error_eq_ok, Bool.not_eq_false, Option.some.injEq,
      exists_and_left, exists_eq_left', not_or, and_assoc, ne_eq]

theorem lookup_loadMappingFile {fs : FileSystem} {table table' : TranslationTable}
    {path expectedDetector : String} (h : loadMappingFile fs table path expectedDetector = .ok table')
    (daq : DAQAddress) (address : DetectorAddress) :
    table'.lookup daq = some address ↔
      table.lookup daq = some address ∨ MappingGives fs path daq address := by
  obtain ⟨content, s, hread, hrows, -, hd, hf, hcombine⟩ := loadMappingFile_ok_iff.mp h
  have hloads : Loads content.rows s := by
    refine foldlM_invariant (I := Loads) ⟨?_, ?_, ?_, ?_⟩ ?_ hrows
    · simp +contextual
    · simp +contextual
    · simp [lookup]
    · simp
    · intro pre row post t t' hsplit ht hrow
      exact ht.step (fun token => ne_empty_of_mem_rows (by rw [hsplit]; simp)) hrow
  rw [lookup_combine hcombine, hloads.channels]
  refine or_congr_right ⟨?_, ?_⟩
  · intro hrow
    exact ⟨content, hread, s.detector, s.fields, (hloads.detector _).mpr ⟨rfl, hd⟩,
      (hloads.fields _).mpr ⟨rfl, hf⟩, hrow⟩
  · intro hh
    obtain ⟨content', hread', detector, names, hdetector, hfields, hrow⟩ := hh
    obtain rfl := Option.some.inj (hread.symm.trans hread')
    obtain ⟨rfl, -⟩ := (hloads.detector _).mp hdetector
    obtain ⟨rfl, -⟩ := (hloads.fields _).mp hfields
    exact hrow

end TranslationTable

end JanaExtensions
