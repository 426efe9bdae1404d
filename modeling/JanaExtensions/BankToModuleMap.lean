import JanaExtensions.Failing
import JanaExtensions.OrderedMap
import JanaExtensions.StreamExtraction

/-! The registry of routes from bank IDs to module IDs. Plugins add single routes, mapping
files add a layer of routes at a time, and the first lookup freezes the registry. -/

namespace JanaExtensions

/-- A mapping file, with what opening it delivers. -/
structure MappingFile where
  filename : String
  content : Option FileContent
  deriving DecidableEq, Repr

/-- The messages that the service has logged are kept with its members. -/
structure BankToModuleMap where
  bankToModule : OrderedMap Int Int := ∅
  routeSources : OrderedMap Int String := ∅
  frozen : Bool := false
  warnings : List String := []

namespace BankToModuleMap

abbrev Routes := OrderedMap Int (Int × String)

def rowSource (filename : String) (lineNumber : Nat) : String :=
  filename ++ ":" ++ toString lineNumber

/-- The module ID and the bank ID of a row without comment. -/
def mappingRow (row : List Char) : Option (Int × Int) := do
  let (moduleId, row) ← extractInt row
  let (bankId, row) ← extractInt row
  if skipSpace row ≠ [] ∨ moduleId < 0 ∨ bankId < 0 ∨ 65535 < bankId then none
  else some (moduleId, bankId)

def stageRow (filename : String) (routes : Routes) (line : Nat × List Char) :
    Except String Routes :=
  let row := skipSpace (beforeComment line.2)
  if row = [] then .ok routes
  else
    let source := rowSource filename line.1
    match mappingRow row with
    | none => .error ("Malformed mapping row at " ++ source)
    | some (moduleId, bankId) =>
      match routes.find bankId with
      | none => .ok (routes.insert bankId (moduleId, source))
      | some staged =>
        if staged.1 ≠ moduleId then
          .error ("Conflicting mapping for bank " ++ toString bankId ++ " at " ++ staged.2 ++
            " and " ++ source)
        else .ok routes

def readRoutes (file : MappingFile) : Except String Routes :=
  match file.content with
  | none => .error ("Failed to open mapping file: " ++ file.filename)
  | some content => do
    let routes ← content.lines.foldlM (stageRow file.filename) ∅
    if !content.eof then .error ("Failed reading mapping file: " ++ file.filename)
    else .ok routes

def overrideWarning (bank existing : Int) (previous : Option String) (route : Int × String) :
    String :=
  "Bank " ++ toString bank ++ " mapping overridden: module " ++ toString existing ++ " (" ++
    previous.getD "plugin registration" ++ ") -> " ++ toString route.1 ++ " (" ++ route.2 ++ ")"

def publishRoute (self : BankToModuleMap) (entry : Int × (Int × String)) : BankToModuleMap :=
  let (bank, route) := entry
  match self.bankToModule.find bank with
  | some existing =>
    if existing = route.1 then self
    else
      { self with
        bankToModule := self.bankToModule.insert bank route.1
        routeSources := self.routeSources.insert bank route.2
        warnings := self.warnings ++
          [overrideWarning bank existing (self.routeSources.find bank) route] }
  | none =>
    { self with
      bankToModule := self.bankToModule.insert bank route.1
      routeSources := self.routeSources.insert bank route.2 }

/-- What a call returns or throws, and the registry after it. -/
def loadMappingFile (file : MappingFile) (self : BankToModuleMap) :
    Except String Unit × BankToModuleMap :=
  match readRoutes file with
  | .error message => (.error message, self)
  | .ok routes =>
    if self.frozen then (.error "Bank-to-module route registry is already frozen", self)
    else (.ok (), routes.entries.foldl publishRoute self)

def addRoute (bankId moduleId : Int) (self : BankToModuleMap) :
    Except String Unit × BankToModuleMap :=
  if self.frozen then (.error "Bank-to-module route registry is already frozen", self)
  else
    match self.bankToModule.emplace bankId moduleId with
    | (bankToModule, true) => (.ok (), { self with bankToModule })
    | (_, false) => (.error ("Duplicate bank-to-module route for bank ID " ++ toString bankId), self)

def getModuleId (bankId : Int) (self : BankToModuleMap) : Int × BankToModuleMap :=
  ((self.bankToModule.find bankId).getD (-1), { self with frozen := true })

end BankToModuleMap

end JanaExtensions
