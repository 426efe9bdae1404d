import JanaExtensions.Failing
import JanaExtensions.OrderedMap
import JanaExtensions.StreamExtraction
import Mathlib.Data.Finset.Insert
import Mathlib.Data.String.Basic

/-! The filter of ROCs and banks. Its rows are split into one list per column for each ROC,
and a set of all rows removes repetitions. -/

namespace JanaExtensions

structure FilterFile where
  filename : String
  content : Option FileContent
  deriving DecidableEq, Repr

structure FilterRow where
  rocid : Int
  slot : Int
  module : Int
  bank : Int
  deriving DecidableEq, Repr

structure FilterDB where
  data : OrderedMap Int (OrderedMap String (List Int)) := ∅
  rows : Finset FilterRow := ∅

namespace FilterDB

abbrev Entry := OrderedMap String (List Int)

/-- Appends to the list of a column, which is created when it is missing. -/
def pushBack (column : String) (value : Int) (entry : Entry) : Entry :=
  entry.insert column ((entry.find column).getD [] ++ [value])

/-- The four integers of a row without comment. -/
def filterRow (row : List Char) : Option FilterRow := do
  let (rocid, row) ← extractInt row
  let (slot, row) ← extractInt row
  let (module, row) ← extractInt row
  let (bank, row) ← extractInt row
  if skipSpace row ≠ [] ∨ rocid < 0 ∨ slot < 0 ∨ module < 0 ∨ bank < 0 ∨ 65535 < bank then none
  else some ⟨rocid, slot, module, bank⟩

def addRow (row : FilterRow) (self : FilterDB) : FilterDB :=
  if row ∈ self.rows then self
  else
    let entry := (self.data.find row.rocid).getD ∅
    let entry := pushBack "banks" row.bank entry
    let entry := pushBack "slots" row.slot entry
    let entry := pushBack "modules" row.module entry
    { data := self.data.insert row.rocid entry, rows := insert row self.rows }

/-- A failing line ends the loop, and the rows before it stay. -/
def fillLines (filename : String) : List (Nat × List Char) → FilterDB →
    Except String Unit × FilterDB
  | [], self => (.ok (), self)
  | line :: lines, self =>
    let row := skipSpace (beforeComment line.2)
    if row = [] then fillLines filename lines self
    else
      match filterRow row with
      | none => (.error ("Malformed filter row at " ++ filename ++ ":" ++ toString line.1), self)
      | some row => fillLines filename lines (addRow row self)

def fillDB (file : FilterFile) (self : FilterDB) : Except String Unit × FilterDB :=
  match file.content with
  | none => (.error ("Failed to open filter DB file: " ++ file.filename), self)
  | some content =>
    match fillLines file.filename content.lines self with
    | (.error message, self) => (.error message, self)
    | (.ok (), self) =>
      if !content.eof then (.error ("Failed reading filter file: " ++ file.filename), self)
      else (.ok (), self)

def isROCAllowed (rocid : Int) (self : FilterDB) : Bool :=
  self.data.entries.isEmpty || (self.data.find rocid).isSome

def isAllowedIn (column : String) (rocid value : Int) (self : FilterDB) : Bool :=
  self.data.entries.isEmpty ||
    match self.data.find rocid with
    | none => false
    | some entry =>
      match entry.find column with
      | none => false
      | some values => values.contains value

def isBankAllowed (rocid bank : Int) (self : FilterDB) : Bool := self.isAllowedIn "banks" rocid bank

def isSlotAllowed (rocid slot : Int) (self : FilterDB) : Bool := self.isAllowedIn "slots" rocid slot

def isModuleAllowed (rocid module : Int) (self : FilterDB) : Bool :=
  self.isAllowedIn "modules" rocid module

/-- Left-aligned output in a field of the given width. -/
def padded (width : Nat) (text : String) : String :=
  text ++ String.ofList (List.replicate (width - text.length) ' ')

structure Widths where
  roc : Nat := "ROC_ID".length
  slots : Nat := "SLOT_ID".length
  modules : Nat := "MODULE".length
  banks : Nat := "BANK_ID".length

def tableLine (w : Widths) (roc slot module bank : String) : String :=
  padded w.roc roc ++ "  " ++ padded w.slots slot ++ "  " ++ padded w.modules module ++ "  " ++
    padded w.banks bank

def columnOf (entry : Entry) (column : String) : Except String (List Int) :=
  match entry.find column with
  | some values => .ok values
  | none => .error "map::at"

def widest (width : Nat) (values : List Int) : Nat :=
  values.foldl (fun width value => max width (toString value).length) width

def widenBy (w : Widths) (entry : Int × Entry) : Except String Widths := do
  let slots ← columnOf entry.2 "slots"
  let modules ← columnOf entry.2 "modules"
  let banks ← columnOf entry.2 "banks"
  .ok ⟨max w.roc (toString entry.1).length, widest w.slots slots, widest w.modules modules,
    widest w.banks banks⟩

/-- The cell of a column in a row of the table, empty below the end of the column. -/
def cell (values : List Int) (i : Nat) : String :=
  match values[i]? with
  | some value => toString value
  | none => ""

def entryLines (w : Widths) (entry : Int × Entry) : Except String (List String) := do
  let slots ← columnOf entry.2 "slots"
  let modules ← columnOf entry.2 "modules"
  let banks ← columnOf entry.2 "banks"
  let maxSize := max (max slots.length modules.length) banks.length
  .ok ((List.range maxSize).map fun i =>
    tableLine w (toString entry.1) (cell slots i) (cell modules i) (cell banks i))

def tableHead (w : Widths) : List String :=
  let dashes (width : Nat) := String.ofList (List.replicate width '-')
  ["ALLOWED ROCs CONFIGURATIONS:", tableLine w "ROC_ID" "SLOT_ID" "MODULE" "BANK_ID",
    dashes w.roc ++ "  " ++ dashes w.slots ++ "  " ++ dashes w.modules ++ "  " ++ dashes w.banks]

def printSummaryTable (self : FilterDB) : Except String (List String) := do
  let w ← self.data.entries.foldlM widenBy {}
  let lines ← self.data.entries.mapM (entryLines w)
  .ok (tableHead w ++ lines.flatten)

end FilterDB

end JanaExtensions
