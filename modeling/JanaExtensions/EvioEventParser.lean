import JanaExtensions.BankToModuleMap
import JanaExtensions.Consolidation
import JanaExtensions.Evio
import JanaExtensions.FilterDB

/-! The parser of one EVIO block: the trigger bank announces the events and the ROCs, the
data banks are sent to the module parsers, and the physics events are merged. A module
parser is any function of the bank, its context and the state that the parsers share. -/

namespace JanaExtensions

structure ModuleParsersMap (P : Type) where
  moduleParsers : OrderedMap Int P := ∅
  frozen : Bool := false

namespace ModuleParsersMap

variable {P : Type}

def addParser (moduleId : Int) (parser : Option P) (self : ModuleParsersMap P) :
    Except String Unit × ModuleParsersMap P :=
  if self.frozen then (.error "Module parser registry is already frozen", self)
  else
    match parser with
    | none => (.error ("Module parser ID " ++ toString moduleId ++ " is null"), self)
    | some parser =>
      match self.moduleParsers.emplace moduleId parser with
      | (moduleParsers, true) => (.ok (), { self with moduleParsers })
      | (_, false) => (.error ("Duplicate module parser ID " ++ toString moduleId), self)

def getParser (moduleId : Int) (self : ModuleParsersMap P) : Option P × ModuleParsersMap P :=
  (self.moduleParsers.find moduleId, { self with frozen := true })

end ModuleParsersMap

namespace BaseStructure

def tag : BaseStructure → UInt16
  | .node tag _ _ _ _ _ => tag

def number : BaseStructure → UInt8
  | .node _ number _ _ _ _ => number

def dataType : BaseStructure → UInt8
  | .node _ _ dataType _ _ _ => dataType

def uintData : BaseStructure → List UInt32
  | .node _ _ _ uintData _ _ => uintData

def ulongData : BaseStructure → List UInt64
  | .node _ _ _ _ ulongData _ => ulongData

def children : BaseStructure → List BaseStructure
  | .node _ _ _ _ _ children => children

end BaseStructure

structure BankContext where
  rocid : UInt32
  tag : UInt16
  number : UInt8
  dataType : UInt8
  deriving DecidableEq, Repr

namespace EvioEventParser

structure Services (P : Type) where
  filterDB : FilterDB
  bankToModule : BankToModuleMap
  moduleParsers : ModuleParsersMap P

/-- The services, and what the module parsers read and write. -/
structure State (P W : Type) where
  services : Services P
  shared : W

/-- The data type of a segment of 32-bit words. -/
def uint32DataType : UInt8 := 0x1

def rocid (dataBank : BaseStructure) : UInt32 := dataBank.tag.toUInt32 &&& 0x0FFF

def bankContext (dbRocid : UInt32) (dma : BaseStructure) : BankContext :=
  ⟨dbRocid, dma.tag, dma.number, dma.dataType⟩

section Dispatch

variable {P W : Type} (invoke : P → BaseStructure → BankContext → W → Except Fault W)

def parseDMA (dbRocid : UInt32) (s : State P W) (dma : BaseStructure) :
    Except Fault (State P W) :=
  let bankTag := dma.tag
  if !s.services.filterDB.isBankAllowed dbRocid.toNat bankTag.toNat then .ok s
  else
    let (moduleId, bankToModule) := s.services.bankToModule.getModuleId bankTag.toNat
    let services := { s.services with bankToModule }
    if moduleId = -1 then .ok { s with services }
    else
      match services.moduleParsers.getParser moduleId with
      | (none, _) =>
        .error (.jexception ("EvioEventParser::parseROCBanks: No parser found for module ID " ++
          toString moduleId ++ " (bank tag " ++ toString bankTag ++ ")"))
      | (some parser, moduleParsers) => do
        let shared ← invoke parser dma (bankContext dbRocid dma) s.shared
        .ok { services := { services with moduleParsers }, shared }

def parseROCBank (s : State P W) (banks : BaseStructure × BaseStructure) :
    Except Fault (State P W) :=
  let tbRocid := banks.2.tag.toUInt32
  let dbRocid := rocid banks.1
  if tbRocid ≠ dbRocid then
    .error (.jexception
      ("EvioEventParser::parseROCBanks: Trigger bank roc segment rocid != Data bank rocid -- " ++
        toString tbRocid ++ " != " ++ toString dbRocid))
  else if !s.services.filterDB.isROCAllowed dbRocid.toNat then .ok s
  else banks.1.children.foldlM (parseDMA invoke dbRocid) s

def parseROCBanks (dataBanks triggerBankROCSegments : List BaseStructure) (s : State P W) :
    Except Fault (State P W) :=
  if dataBanks.length ≠ triggerBankROCSegments.length then
    .error (.jexception
      ("EvioEventParser::parseROCBanks: #ROC databanks != #ROC segments in trigger bank -- " ++
        toString dataBanks.length ++ " != " ++ toString triggerBankROCSegments.length))
  else (dataBanks.zip triggerBankROCSegments).foldlM (parseROCBank invoke) s

end Dispatch

/-- The trigger data and the ROC segments. The first timestamp is read without a check, and
the number of the last event is computed in unsigned arithmetic. -/
def parseTriggerBank (triggerBank : BaseStructure) :
    Except Fault (List BaseStructure × TriggerData) :=
  let triggerBankROCsCount := triggerBank.number.toNat
  match triggerBank.children with
  | [] => .error (.jexception "vector::_M_range_check: __n (which is 0) >= this->size() (which is 0)")
  | eb1Segment :: _ =>
    match eb1Segment.ulongData with
    | [] => .error .outOfBounds
    | firstEventNumber :: rest =>
      let totalNevents := UInt64.ofNat rest.length
      let triggerData : TriggerData := ⟨firstEventNumber, firstEventNumber + totalNevents - 1⟩
      let rocsData := triggerBank.children.filter fun child => child.dataType = uint32DataType
      if triggerBankROCsCount ≠ rocsData.length then
        .error (.jexception
          ("EvioEventParser::parseTriggerBank: #ROC segments != header #ROCS -- " ++
            toString triggerBankROCsCount ++ " != " ++ toString rocsData.length))
      else .ok (rocsData, triggerData)

structure Shared (H : Type) where
  triggerData : TriggerData
  physicsEvents : List (PhysicsEvent H)

def parse {P H : Type}
    (invoke : P → BaseStructure → BankContext → Shared H → Except Fault (Shared H))
    (eventNumber : UInt64) (event : EvioEvent) (services : Services P) :
    Except Fault (List (PhysicsEvent H) × Services P) :=
  match event.children with
  | [] => .error (.jexception "vector::_M_range_check: __n (which is 0) >= this->size() (which is 0)")
  | triggerBank :: rocBanks => do
    let (segments, triggerData) ← parseTriggerBank triggerBank
    let s ← parseROCBanks invoke rocBanks segments ⟨services, triggerData, []⟩
    if s.shared.physicsEvents.isEmpty then
      .error (.jexception ("EvioEventParser::parse: No physics events found for evio block " ++
        toString eventNumber))
    else .ok (consolidate s.shared.physicsEvents, s.services)

end EvioEventParser

end JanaExtensions
